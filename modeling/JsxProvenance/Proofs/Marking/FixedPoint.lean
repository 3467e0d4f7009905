import JsxProvenance.Proofs.Marking.Refinement
import Mathlib.Tactic.TFAE

/-!
Which programs a run leaves as they are. A mark makes a list of attributes longer, and
nothing else that a run does to an element makes it shorter again. So a program comes back
the same only if no element of it was marked, whatever marks it may have had before; and as
a run takes no position away, a second run finds the same elements to mark as the first.

Main statement: `Marker.run_ok_unchanged_tfae`.
-/

namespace JsxProvenance

namespace Marker

variable {marker : Marker}

theorem length_attributes_mark_of_line {e : Element} {line : Nat}
    (hdummy : e.span.isDummy = false)
    (hline : marker.map.lineAt? e.span.lo.toNat = some line) :
    (marker.mark e).attributes.length = e.attributes.length + 1 := by
  simp [mark, hdummy, hline, OpeningElement.addAttribute]

/-- A mark shows in the number of attributes. -/
theorem mark_of_length {e : Element}
    (h : (marker.mark e).attributes.length = e.attributes.length) : marker.mark e = e := by
  rcases position_cases marker e with hdummy | hunplaced | ⟨hdummy, line, hline⟩
  · rw [mark, if_pos hdummy]
  · exact mark_of_unplaced hunplaced
  · rw [length_attributes_mark_of_line hdummy hline] at h
    omega

theorem mark_eq_self_iff {e : Element} (h : ¬ marker.Unplaced e) :
    marker.mark e = e ↔ e.span.isDummy = true := by
  constructor
  · intro hsame
    rw [← Bool.not_eq_false]
    intro hdummy
    obtain ⟨line, hline⟩ := line_of_placed hdummy h
    have hlength := length_attributes_mark_of_line hdummy hline
    rw [hsame] at hlength
    omega
  · intro hdummy
    rw [mark, if_pos hdummy]

theorem mapElements_mark_eq_self_iff {program : Program}
    (h : ∀ e ∈ program.elements, ¬ marker.Unplaced e) :
    program.mapElements marker.mark = program ↔
      ∀ e ∈ program.elements, e.span.isDummy = true := by
  rw [Program.mapElements_eq_self_iff fun _ => mark_of_length]
  constructor
  · intro hsame e member
    exact (mark_eq_self_iff (h e member)).mp (hsame e member)
  · intro hdummy e member
    exact (mark_eq_self_iff (h e member)).mpr (hdummy e member)

/-- The programs that a run gives back are those without an element that has a position. -/
theorem run_eq_self_iff (marker : Marker) (program : Program) :
    (marker.run program).result = .ok program ↔
      ∀ e ∈ program.elements, e.span.isDummy = true := by
  constructor
  · intro h
    apply (mapElements_mark_eq_self_iff (placed_of_run_ok h)).mp
    exact (eq_mapElements_of_run_ok h).symm
  · intro hdummy
    have hplaced : ∀ e ∈ program.elements, ¬ marker.Unplaced e :=
      fun e member => not_unplaced_of_dummy (hdummy e member)
    rw [run_of_placed hplaced, (mapElements_mark_eq_self_iff hplaced).mpr hdummy]

/-- A run takes no position away and gives none. -/
theorem forall_isDummy_of_run_ok {program marked : Program}
    (h : (marker.run program).result = .ok marked) :
    (∀ e ∈ marked.elements, e.span.isDummy = true) ↔
      ∀ e ∈ program.elements, e.span.isDummy = true := by
  rw [elements_of_run_ok h, List.forall_mem_map, mark_eq_markAll]
  simp only [SourceMap.span_mapElements_markAll]

/-- A run that does not fail returns its program if and only if a further run, under
whatever name, would return the result of the first, and this if and only if no element of
the program, however deep, has a position. -/
theorem run_ok_unchanged_tfae {program marked : Program}
    (h : (marker.run program).result = .ok marked) (fileName : String) :
    [marked = program,
      (Marker.run ⟨fileName, marker.map⟩ marked).result = .ok marked,
      ∀ e ∈ program.elements, e.span.isDummy = true].TFAE := by
  tfae_have 1 ↔ 3 := by
    rw [eq_mapElements_of_run_ok h]
    exact mapElements_mark_eq_self_iff (placed_of_run_ok h)
  tfae_have 2 ↔ 3 := by
    rw [run_eq_self_iff]
    exact forall_isDummy_of_run_ok h
  tfae_finish

/-- A tag that has the very mark already gets a second one, and then a third. -/
theorem run_ok_unchanged_tfae_sameMark :
    let marker : Marker := ⟨"a.tsx", .ofFiles [⟨.anonymous, "ab\ncd"⟩]⟩
    let tag : Element := ⟨.null, ⟨4, 6⟩, [Marking.sourceAttribute "a.tsx" 2], true, .null⟩
    let program : Program := ⟨.script, .dummy, [.element tag], .null⟩
    ∃ marked, (marker.run program).result = .ok marked ∧ marked ≠ program ∧
      (Marker.run ⟨"b.tsx", marker.map⟩ marked).result ≠ .ok marked := by
  intro marker tag program
  have h : (marker.run program).result = .ok (program.mapElements marker.mark) := rfl
  have hequivalent := run_ok_unchanged_tfae h "b.tsx"
  have hpositioned : ¬ ∀ e ∈ program.elements, e.span.isDummy = true := by
    intro hdummy
    cases hdummy tag (List.mem_singleton_self tag)
  refine ⟨_, h, ?_, ?_⟩
  · exact mt (hequivalent.out 0 2).mp hpositioned
  · exact mt (hequivalent.out 1 2).mp hpositioned

end Marker

end JsxProvenance
