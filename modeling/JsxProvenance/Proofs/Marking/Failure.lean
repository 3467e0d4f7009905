import JsxProvenance.Proofs.Marking.Refinement
import JsxProvenance.Proofs.Source.Lookup

/-!
When runs fail, and what they leave in the log. A run fails if some element, however
deep in the program, has a position that none of the files holds: position zero, or any
position at all if there are no files. The first such element is the one that counts,
in the order in which a walk finishes elements. The elements before it are finished and
leave their records, and neither it nor any element after it leaves one.
-/

namespace JsxProvenance

/-- The span gives a position, but none of the files holds it. -/
def Span.Outside (files : List SourceFile) (span : Span) : Prop :=
  span.isDummy = false ∧ (span.lo = 0 ∨ files = [])

namespace Marker

theorem unplaced_ofFiles_iff (fileName : String) (files : List SourceFile) (e : Element) :
    Unplaced ⟨fileName, .ofFiles files⟩ e ↔ e.span.Outside files := by
  have hzero : e.span.lo.toNat = 0 ↔ e.span.lo = 0 := UInt32.toNat_inj (b := 0)
  rw [Unplaced, Span.Outside, SourceMap.lineAt?_ofFiles_eq_none_iff, hzero]

/-- A run that fails does so at the first element without a place, and has finished
those before it. -/
theorem run_of_first_unplaced {marker : Marker} {program : Program}
    {before after : List Element} {e : Element}
    (hsplit : program.elements = before ++ e :: after)
    (hbefore : ∀ other ∈ before, ¬ marker.Unplaced other) (h : marker.Unplaced e) :
    marker.run program = ⟨.error ⟨e.span.lo.toNat⟩, marker.skipRecords before⟩ := by
  rw [run_eq, hsplit, find?_unplaced_append after hbefore h, finished_append after hbefore h]

theorem exists_first_unplaced {marker : Marker} {elements : List Element}
    (h : ∃ e ∈ elements, marker.Unplaced e) :
    ∃ before e after, elements = before ++ e :: after ∧
      (∀ other ∈ before, ¬ marker.Unplaced other) ∧ marker.Unplaced e := by
  cases hfind : elements.find? fun e => marker.Unplaced e with
  | none =>
      obtain ⟨e, member, hplace⟩ := h
      exact absurd hplace (by simpa using List.find?_eq_none.mp hfind e member)
  | some e =>
      obtain ⟨hplace, before, after, hsplit, hbefore⟩ :=
        List.find?_eq_some_iff_append.mp hfind
      refine ⟨before, e, after, hsplit, ?_, by simpa using hplace⟩
      intro other member
      simpa using hbefore other member

theorem run_error_iff {marker : Marker} {program : Program} :
    (∃ failure, (marker.run program).result = .error failure) ↔
      ∃ e ∈ program.elements, marker.Unplaced e := by
  constructor
  · rintro ⟨failure, hfailure⟩
    by_contra hnone
    have hplaced : ∀ e ∈ program.elements, ¬ marker.Unplaced e := by
      simpa using hnone
    rw [run_of_placed hplaced] at hfailure
    cases hfailure
  · intro hunplaced
    obtain ⟨before, e, after, hsplit, hbefore, he⟩ := exists_first_unplaced hunplaced
    exact ⟨_, congrArg Outcome.result (run_of_first_unplaced hsplit hbefore he)⟩

theorem not_outside_of_position {files : List SourceFile} {span : Span} (hfiles : files ≠ [])
    (h : span.isDummy = true ∨ 1 ≤ span.lo) : ¬ span.Outside files := by
  rintro ⟨hdummy, hzero | hnone⟩
  · rcases h with hposition | hposition
    · rw [hdummy] at hposition
      cases hposition
    · rw [hzero] at hposition
      exact absurd hposition (by decide)
  · exact hfiles hnone

/-- A run fails exactly if some element has a position that no file holds. It then
reports the first of them, with the records of the elements before it that have no
position and nothing else in the log. -/
theorem run_error_iff_outside (fileName : String) (files : List SourceFile)
    (program : Program) :
    let outcome := Marker.run ⟨fileName, .ofFiles files⟩ program
    ((∃ failure, outcome.result = .error failure) ↔
        ∃ e ∈ program.elements, e.span.Outside files) ∧
      (∀ failure, outcome.result = .error failure →
        ∃ before e after, program.elements = before ++ e :: after ∧
          (∀ other ∈ before, ¬ other.span.Outside files) ∧ e.span.Outside files ∧
          failure = ⟨e.span.lo.toNat⟩ ∧
          outcome.records = (before.filter (·.span.isDummy)).map
            (fun other => .noPosition fileName other.form) ∧
          ∀ name counts, Record.added name counts ∉ outcome.records) ∧
      (files ≠ [] → (∀ e ∈ program.elements, e.span.isDummy = true ∨ 1 ≤ e.span.lo) →
        ∃ marked, outcome.result = .ok marked) := by
  intro outcome
  have hplace := unplaced_ofFiles_iff fileName files
  refine ⟨?_, ?_, ?_⟩
  · simp only [← hplace]
    exact run_error_iff
  · intro failure hfailure
    obtain ⟨before, e, after, hsplit, hbefore, he⟩ :=
      exists_first_unplaced (run_error_iff.mp ⟨failure, hfailure⟩)
    have hrun : outcome = _ := run_of_first_unplaced hsplit hbefore he
    have hrecords : outcome.records = (before.filter (·.span.isDummy)).map
        fun other => .noPosition fileName other.form := congrArg Outcome.records hrun
    refine ⟨before, e, after, hsplit, ?_, (hplace e).mp he, ?_, hrecords, ?_⟩
    · intro other member
      rw [← hplace]
      exact hbefore other member
    · rw [hrun] at hfailure
      exact (Except.error.inj hfailure).symm
    · intro name counts
      simp [hrecords]
  · intro hfiles hpositions
    have hplaced : ∀ e ∈ program.elements, ¬ Unplaced ⟨fileName, .ofFiles files⟩ e := by
      intro e member
      rw [hplace]
      exact not_outside_of_position hfiles (hpositions e member)
    exact ⟨_, congrArg Outcome.result (run_of_placed hplaced)⟩

end Marker

end JsxProvenance
