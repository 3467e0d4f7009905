import JsxProvenance.Proofs.Marking.Accounts
import JsxProvenance.Proofs.Marking.LineNumber
import JsxProvenance.Proofs.Tree.First

/-!
How exact line numbers are. A mark holds its line as a binary64 number, and the number
that stands in the tree is the one nearest to the line. From `2 ^ 53` on this need not be
the line itself, but no walk comes that far: a line is at most the position it was looked
up for, and positions have 32 bits. This is so for each element that a walk has marked,
whether it went on to the end of the program or failed behind that element.

Main statements: `Marking.sourceAttribute_rounded`, `Marker.walk_lineNumber_exact`.
-/

namespace JsxProvenance

/-- The line number in a mark is the line, rounded to 53 significant bits: no other number
`significand * 2 ^ exponent` of at most 53 bits is nearer, and of two that are equally near
it is the one whose long significand is even. Up to `2 ^ 53` all lines are such numbers, and
stay as they are; and no line is rounded to a larger number than a later line. -/
theorem Marking.sourceAttribute_rounded (fileName : String) (line : Nat) :
    ∃ r : Nat, (sourceAttribute fileName line).place? = some (fileName, .int r) ∧
      (∃ x : Scaled, x.significand ≤ 2 ^ 53 ∧ x.toNat = r) ∧
      (∀ x : Scaled, x.significand ≤ 2 ^ 53 → Nat.dist line r ≤ Nat.dist line x.toNat) ∧
      (∀ x : Scaled, x.significand ≤ 2 ^ 53 → x.toNat ≠ r →
        Nat.dist line x.toNat = Nat.dist line r →
          (∃ y : Scaled, y.toNat = r ∧ y.IsLong ∧ Even y.significand) ∧
            ∃ y : Scaled, y.toNat = x.toNat ∧ y.IsLong ∧ Odd y.significand) ∧
      (line ≤ 2 ^ 53 → r = line) ∧
      ∀ later s : Nat, line ≤ later →
        (sourceAttribute fileName later).place? = some (fileName, .int s) → r ≤ s := by
  refine ⟨(Scaled.nearest line 1).toNat, place?_sourceAttribute fileName line, ?_, ?_, ?_,
    Scaled.toNat_nearest_of_le, ?_⟩
  · exact ⟨_, Nat.le_of_lt (Scaled.significand_nearest_lt line 1), rfl⟩
  · intro x hx
    have hnearest := Scaled.dist_nearest_le line Nat.one_pos hx
    rwa [Nat.mul_one, Nat.mul_one] at hnearest
  · intro x hx hne htie
    have hrounded : (Scaled.nearest line 1).toNat ≠ line := by
      intro hself
      rw [hself, Nat.dist_self] at htie
      rw [hself] at hne
      exact hne (Nat.eq_of_dist_eq_zero htie).symm
    have hexponent := Scaled.exponentFor_pos_of_rounded hrounded
    obtain ⟨hlong, heven, hother⟩ := Scaled.even_nearest_of_tie Nat.one_pos hexponent hx hne
      (by rwa [Nat.mul_one, Nat.mul_one])
    exact ⟨⟨_, rfl, hlong, heven⟩, hother⟩
  · intro later s hle hplace
    rw [place?_sourceAttribute] at hplace
    have hs : (Scaled.nearest later 1).toNat = s := by
      simpa [Int.natCast_inj] using hplace
    rw [← hs]
    exact Scaled.toNat_nearest_mono Nat.one_pos hle

/-- Half way between the last number of 53 bits with one place behind them and the first
with two, the significand is carried. -/
theorem Marking.sourceAttribute_rounded_carried :
    (sourceAttribute "a.tsx" 18014398509481983).place? =
        some ("a.tsx", .int 18014398509481984) ∧
      (∃ y : Scaled, y.toNat = 18014398509481984 ∧ y.IsLong ∧ Even y.significand) ∧
      ∃ y : Scaled, y.toNat = 18014398509481982 ∧ y.IsLong ∧ Odd y.significand := by
  obtain ⟨r, hplace, _, _, htie, _⟩ := sourceAttribute_rounded "a.tsx" 18014398509481983
  have hcarried : (sourceAttribute "a.tsx" 18014398509481983).place? =
      some ("a.tsx", .int 18014398509481984) := rfl
  have hr : (r : Int) = 18014398509481984 := by
    simpa using hplace.symm.trans hcarried
  obtain rfl : r = 18014398509481984 := by omega
  have hother := htie ⟨9007199254740991, 1⟩ (by decide) (by decide) (by decide)
  exact ⟨hcarried, hother⟩

namespace Marker

variable {marker : Marker} {program : Program}

/-- A walk over a program has marked `e`: the element in its place, which is `changed` now,
has more attributes. -/
def Marks (marker : Marker) (program : Program) (e changed : Element) : Prop :=
  ∃ i : Nat, program.elements[i]? = some e ∧ (marker.left program).elements[i]? = some changed ∧
    e.attributes.length < changed.attributes.length

theorem left_eq (marker : Marker) (program : Program) :
    marker.left program =
      program.mapFirst marker.mark (marker.finished program.elements).length := by
  rw [left, walkProgram_start]

/-- What a run returns is what its walk leaves. -/
theorem eq_left_of_run_ok {marked : Program} (h : (marker.run program).result = .ok marked) :
    marked = marker.left program := by
  rw [left_eq, finished_eq_self (placed_of_run_ok h),
    Program.mapFirst_eq_mapElements _ _ (Nat.le_refl _)]
  exact eq_mapElements_of_run_ok h

theorem not_unplaced_of_finished {elements : List Element} {i : Nat} {e : Element}
    (he : elements[i]? = some e) (hi : i < (marker.finished elements).length) :
    ¬ marker.Unplaced e := by
  have hfirst : elements[i]? = some (marker.finished elements)[i] :=
    List.prefix_iff_getElem?.mp (List.takeWhile_prefix _) i hi
  obtain rfl := Option.some.inj (he.symm.trans hfirst)
  simpa using List.mem_takeWhile_imp (List.getElem_mem hi)

theorem getElem?_elements_left {i : Nat} {e : Element} (he : program.elements[i]? = some e) :
    (marker.left program).elements[i]? = some (OpeningElement.numbered marker.mark
      (marker.finished program.elements).length i e) := by
  rw [left_eq, Program.elements_mapFirst marker.nested_mark, List.getElem?_mapIdx, he]
  rfl

/-- A walk marks each element that it finishes, if the element has a position. -/
theorem marks_of_finished {i : Nat} {e : Element} (he : program.elements[i]? = some e)
    (hi : i < (marker.finished program.elements).length) (hdummy : e.span.isDummy = false) :
    marker.Marks program e (e.mapElements marker.mark) := by
  have hlength := length_attributes_mapElements_mark (not_unplaced_of_finished he hi)
  refine ⟨i, he, ?_, ?_⟩
  · rw [getElem?_elements_left he,
      OpeningElement.numbered_of_lt (program.nestedBefore_elements i e he) hi]
  · rw [hlength, hdummy]
    exact Nat.lt_succ_self _

/-- An element that was marked has a position, on a line, and has become what a whole run
makes of it. -/
theorem Marks.exists_line {e changed : Element} (h : marker.Marks program e changed) :
    e.span.isDummy = false ∧ ∃ line, marker.map.lineAt? e.span.lo.toNat = some line ∧
      changed = e.mapElements marker.mark := by
  obtain ⟨i, he, hchanged, hlonger⟩ := h
  have hnested := program.nestedBefore_elements i e he
  rw [getElem?_elements_left he] at hchanged
  obtain rfl := Option.some.inj hchanged
  by_cases hi : i < (marker.finished program.elements).length
  · have hplaced := not_unplaced_of_finished he hi
    rw [OpeningElement.numbered_of_lt hnested hi] at hlonger ⊢
    rw [length_attributes_mapElements_mark hplaced] at hlonger
    cases hdummy : e.span.isDummy with
    | true =>
        rw [hdummy] at hlonger
        exact absurd hlonger (Nat.lt_irrefl _)
    | false =>
        obtain ⟨line, hline⟩ := line_of_placed hdummy hplaced
        exact ⟨rfl, line, hline, rfl⟩
  · rw [OpeningElement.length_attributes_numbered_of_le hnested (Nat.le_of_not_lt hi)] at hlonger
    exact absurd hlonger (Nat.lt_irrefl _)

theorem exists_marks_of_run_ok {marked : Program}
    (h : (marker.run program).result = .ok marked) {e : Element} (member : e ∈ program.elements)
    (hdummy : e.span.isDummy = false) : ∃ changed, marker.Marks program e changed := by
  obtain ⟨i, he⟩ := List.getElem?_of_mem member
  refine ⟨_, marks_of_finished he ?_ hdummy⟩
  rw [finished_eq_self (placed_of_run_ok h)]
  exact (List.getElem?_eq_some_iff.mp he).1

theorem Marks.lineNumber?_eq {fileName : String} {files : List SourceFile} {e changed : Element}
    (h : Marks ⟨fileName, .ofFiles files⟩ program e changed) :
    ∃ line, (SourceMap.ofFiles files).lineAt? e.span.lo.toNat = some line ∧
      changed.lineNumber? = some (.int line) := by
  obtain ⟨hdummy, line, hline, rfl⟩ := h.exists_line
  refine ⟨line, hline, ?_⟩
  rw [OpeningElement.lineNumber?, place?_getLast?_mapElements_mark hdummy hline,
    nearest_of_lineAt? hline]
  rfl

/-- No line number is rounded. Whether a walk ends or fails, each element that it has marked
has a line, which is at most the position of the element, and this very line is the number
written; so two of them have the same number only if they are on the same line. If the run
does not fail, then these are all elements that have a position. -/
theorem walk_lineNumber_exact (fileName : String) (files : List SourceFile)
    (program : Program) :
    let marker : Marker := ⟨fileName, .ofFiles files⟩
    (∀ e changed, marker.Marks program e changed →
      ∃ line, marker.map.lineAt? e.span.lo.toNat = some line ∧
        line ≤ e.span.lo.toNat ∧ line < 2 ^ 32 ∧ changed.lineNumber? = some (.int line)) ∧
      (∀ e changed other otherChanged, marker.Marks program e changed →
        marker.Marks program other otherChanged →
          (changed.lineNumber? = otherChanged.lineNumber? ↔
            marker.map.lineAt? e.span.lo.toNat = marker.map.lineAt? other.span.lo.toNat)) ∧
      ∀ marked, (marker.run program).result = .ok marked →
        marked = marker.left program ∧
          ∀ e ∈ program.elements, e.span.isDummy = false →
            ∃ changed, marker.Marks program e changed := by
  intro marker
  refine ⟨?_, ?_, ?_⟩
  · intro e changed h
    obtain ⟨line, hline, hnumber⟩ := h.lineNumber?_eq
    have hbound := SourceMap.line_le_of_lineAt?_ofFiles hline
    have hposition : e.span.lo.toNat < 2 ^ 32 := e.span.lo.toNat_lt
    exact ⟨line, hline, hbound, Nat.lt_of_le_of_lt hbound hposition, hnumber⟩
  · intro e changed other otherChanged h hother
    obtain ⟨line, hline, hnumber⟩ := h.lineNumber?_eq
    obtain ⟨otherLine, hotherLine, hotherNumber⟩ := hother.lineNumber?_eq
    rw [hnumber, hotherNumber, hline, hotherLine]
    simp only [Option.some.injEq, Number.int.injEq, Int.natCast_inj]
  · intro marked h
    exact ⟨eq_left_of_run_ok h, fun e => exists_marks_of_run_ok h⟩

/-- The inner tag is marked before the run fails at the outer one. -/
theorem walk_lineNumber_exact_failedRun :
    let marker : Marker := ⟨"a.tsx", .ofFiles [⟨.anonymous, "ab\r\ncd"⟩]⟩
    let inner : Element := ⟨.null, ⟨5, 6⟩, [], true, .null⟩
    let program := twoTags ⟨0, 9⟩ inner.span
    (marker.run program).result = .error ⟨0⟩ ∧
      ∃ changed, marker.Marks program inner changed ∧
        changed.lineNumber? = some (.int 2) := by
  intro marker inner program
  have hmarks : marker.Marks program inner (inner.mapElements marker.mark) :=
    marks_of_finished (i := 0) rfl (by decide) rfl
  obtain ⟨line, hline, _, _, hnumber⟩ :=
    (walk_lineNumber_exact "a.tsx" [⟨.anonymous, "ab\r\ncd"⟩] program).1 inner _ hmarks
  have hsecond : marker.map.lineAt? inner.span.lo.toNat = some 2 := rfl
  obtain rfl := Option.some.inj (hsecond.symm.trans hline)
  exact ⟨rfl, _, hmarks, hnumber⟩

end Marker

end JsxProvenance
