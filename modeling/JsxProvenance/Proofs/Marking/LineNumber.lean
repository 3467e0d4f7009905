import JsxProvenance.Proofs.Marking.Refinement
import JsxProvenance.Proofs.Number.Rounding
import JsxProvenance.Proofs.Source.Lookup

/-!
The line that a mark gives. Between the bytes of a file and the number in the tree
stand the file that is looked up, its list of line starts, and the rounding to a
binary64 number. None of them shows: a position is a number of 32 bits and a line is
never beyond its position, so no line is large enough to be rounded, and the number is
the count of the line breaks before the position.
-/

namespace JsxProvenance

namespace Marker

/-- No line that can be looked up is rounded. -/
theorem nearest_of_lineAt? {files : List SourceFile} {pos : UInt32} {line : Nat}
    (h : (SourceMap.ofFiles files).lineAt? pos.toNat = some line) :
    (Scaled.nearest line 1).toNat = line := by
  have hline := SourceMap.line_le_of_lineAt?_ofFiles h
  have hpos : pos.toNat < 2 ^ 32 := pos.toNat_lt
  have hexact : line ≤ 2 * Scaled.leastLong := by
    have : 2 ^ 32 < 2 * Scaled.leastLong := by decide
    omega
  exact Scaled.toNat_nearest_of_le hexact

/-- The line number that a run writes. It is looked up in the last file that starts at
or before the element: 0 if that file has no bytes, and otherwise one more than the
line breaks that end at or before the element, those at the end of the file left out.
So it counts all breaks up to an element within the file, and is the file's last line
for an element beyond it. -/
theorem run_lineNumber {fileName : String} {files : List SourceFile}
    {program marked : Program}
    (h : (Marker.run ⟨fileName, .ofFiles files⟩ program).result = .ok marked)
    {i : Nat} {e : Element} (he : program.elements[i]? = some e)
    (hposition : e.span.isDummy = false) :
    ∃ (number : Nat) (file : SourceFile) (changed : Element) (line : Nat),
      files[number]? = some file ∧
      SourceMap.startOf files number ≤ e.span.lo.toNat ∧
      (∀ later, number < later → later < files.length →
        e.span.lo.toNat < SourceMap.startOf files later) ∧
      marked.elements[i]? = some changed ∧
      changed.attributes.getLast?.bind Tree.place? = some (fileName, .int line) ∧
      let offset := e.span.lo.toNat - SourceMap.startOf files number
      (file.bytes = [] → line = 0) ∧
      (file.bytes ≠ [] →
        line = 1 + (List.range file.bytes.length).countP fun ending =>
          1 ≤ ending ∧ ending ≤ offset ∧ Lines.BreakEndsAt file.bytes ending) ∧
      (offset < file.bytes.length →
        line = 1 + (List.range (offset + 1)).countP fun ending =>
          1 ≤ ending ∧ Lines.BreakEndsAt file.bytes ending) ∧
      (file.bytes.length ≤ offset →
        line = (Lines.starts (SourceMap.startOf files number) file.bytes).length) := by
  obtain ⟨changed, _, line, hline, hchanged, _, hplace⟩ := exists_mark_of_run_ok h he hposition
  rw [nearest_of_lineAt? hline] at hplace
  obtain ⟨number, file, hfile, hstart, hlater, hlineOf⟩ := SourceMap.lineAt?_ofFiles hline
  refine ⟨number, file, changed, line, hfile, hstart, hlater, hchanged, hplace, ?_, ?_, ?_, ?_⟩
  · intro hempty
    rw [hlineOf, Lines.lineOf, if_pos hempty]
  · intro hempty
    rw [hlineOf, Lines.lineOf, if_neg hempty]
  · intro hoffset
    rw [hlineOf, Lines.lineOf_of_lt _ hoffset]
  · intro hoffset
    rw [hlineOf, Lines.lineOf_of_le (SourceMap.startOf files number) hoffset]

theorem run_lineNumber_twoTags :
    ∃ marked changed,
      (Marker.run ⟨"a.tsx", .ofFiles [⟨.anonymous, "ab\r\ncd"⟩]⟩
        (twoTags ⟨1, 9⟩ ⟨5, 6⟩)).result = .ok marked ∧
      marked.elements[0]? = some changed ∧
      changed.attributes.getLast?.bind Tree.place? = some ("a.tsx", .int 2) := by
  have h : (Marker.run ⟨"a.tsx", .ofFiles [⟨.anonymous, "ab\r\ncd"⟩]⟩
      (twoTags ⟨1, 9⟩ ⟨5, 6⟩)).result = .ok _ := rfl
  obtain ⟨number, file, changed, line, hfile, _, _, hchanged, hplace, _, hline, _, _⟩ :=
    run_lineNumber h (i := 0) rfl rfl
  cases number with
  | succ number => cases hfile
  | zero =>
      obtain rfl := Option.some.inj hfile
      have htwo : line = 2 := (hline (by decide)).trans (by decide)
      subst htwo
      exact ⟨_, changed, h, hchanged, hplace⟩

end Marker

end JsxProvenance
