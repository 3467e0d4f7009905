import JsxProvenance.Marking.Erase
import JsxProvenance.Proofs.Marking.Refinement

/-!
Taking marks off again. Both ways to erase a mark undo it: the mark is the last attribute of
an element with a position, and it goes by the right name. So erasing after a run comes to a
single map, which acts on the elements that got no mark and on no others.

By position, no such element is touched, and the program comes back as it was; a marked
program therefore tells which program it was made from. By name, an element without a
position may lose an attribute that was there before, and this cannot be made up for
elsewhere: the program comes back exactly if no such element ends in an attribute of that
name.

Main statement: `Marker.run_ok_erased`.
-/

namespace JsxProvenance

namespace OpeningElement

theorem eraseByPosition_addAttribute {e : Element} (h : e.span.isDummy = false) (added : Tree) :
    (e.addAttribute added).eraseByPosition = e := by
  simp [eraseByPosition, addAttribute, h]

theorem eraseByName_addAttribute (e : Element) (fileName : String) (line : Nat) :
    (e.addAttribute (Marking.sourceAttribute fileName line)).eraseByName = e := by
  have hends : (e.addAttribute (Marking.sourceAttribute fileName line)).endsInSource = true := by
    simp [endsInSource, addAttribute]
  rw [eraseByName, if_pos hends]
  simp [addAttribute]

/-- Erasing by name shows in the number of attributes. -/
theorem endsInSource_of_length_eraseByName {e : Element}
    (h : e.eraseByName.attributes.length = e.attributes.length) : e.endsInSource = false := by
  rw [← Bool.not_eq_true]
  intro hends
  have hne : e.attributes ≠ [] := by
    intro hempty
    simp [endsInSource, hempty] at hends
  have hpos := List.length_pos_iff.mpr hne
  rw [eraseByName, if_pos hends, List.length_dropLast] at h
  omega

theorem eraseByName_of_endsInSource {e : Element} (h : e.endsInSource = false) :
    e.eraseByName = e := by
  rw [eraseByName, h]
  rfl

theorem endsInSource_of_eraseByName {e : Element} (h : e.eraseByName = e) :
    e.endsInSource = false :=
  endsInSource_of_length_eraseByName (by rw [h])

theorem eraseByName_of_length {e : Element}
    (h : e.eraseByName.attributes.length = e.attributes.length) : e.eraseByName = e :=
  eraseByName_of_endsInSource (endsInSource_of_length_eraseByName h)

theorem endsInSource_eq_false_iff (e : Element) :
    e.endsInSource = false ↔ e.attributes.getLast?.bind Tree.attributeName? ≠ some "__source" :=
  beq_eq_false_iff_ne

end OpeningElement

namespace Marker

variable (marker : Marker)

/-- What is left of an element that was marked, or stayed as it was for want of a position,
after something was erased from it. -/
def erased (erase : Element → Element) (e : Element) : Element :=
  if e.span.isDummy then erase e
  else
    match marker.map.lineAt? e.span.lo.toNat with
    | none => erase e
    | some _ => e

variable {marker} {erase : Element → Element}

theorem erased_of_dummy {e : Element} (h : e.span.isDummy = true) :
    marker.erased erase e = erase e := by
  rw [erased, if_pos h]

theorem erased_of_unplaced {e : Element} (h : marker.Unplaced e) :
    marker.erased erase e = erase e := by
  simp [erased, h.1, h.2]

theorem erased_of_line {e : Element} {line : Nat} (hdummy : e.span.isDummy = false)
    (hline : marker.map.lineAt? e.span.lo.toNat = some line) : marker.erased erase e = e := by
  simp [erased, hdummy, hline]

/-- An erasure that undoes every mark acts, after a run, on the elements without a mark. -/
theorem mapElements_mark_erase
    (herase : ∀ (e : Element) (fileName : String) (line : Nat), e.span.isDummy = false →
      erase (e.addAttribute (Marking.sourceAttribute fileName line)) = e)
    (program : Program) :
    (program.mapElements marker.mark).mapElements erase =
      program.mapElements (marker.erased erase) := by
  apply Program.mapElements_mapElements
  intro e
  rw [OpeningElement.mapElements_eq]
  rcases position_cases marker e with hdummy | hunplaced | ⟨hdummy, line, hline⟩
  · have hmark : marker.mark e = e := by rw [mark, if_pos hdummy]
    have hparts : (e.mapParts (Tree.mapElements erase)).span.isDummy = true := hdummy
    rw [hmark, erased_of_dummy hparts]
  · have hparts : marker.Unplaced (e.mapParts (Tree.mapElements erase)) := hunplaced
    rw [mark_of_unplaced hunplaced, erased_of_unplaced hparts]
  · have hmark : marker.mark e =
        e.addAttribute (Marking.sourceAttribute marker.fileName line) := by
      simp [mark, hdummy, hline]
    have hadded : (Marking.sourceAttribute marker.fileName line).mapElements erase =
        Marking.sourceAttribute marker.fileName line := by
      apply Tree.mapElements_eq_self
      simp
    have hparts : (e.mapParts (Tree.mapElements erase)).span.isDummy = false := hdummy
    rw [hmark, OpeningElement.mapParts_addAttribute, hadded, herase _ _ _ hparts,
      erased_of_line hparts hline]

theorem eraseByPosition_of_run_ok {program marked : Program}
    (h : (marker.run program).result = .ok marked) :
    marked.mapElements OpeningElement.eraseByPosition = program := by
  rw [eq_mapElements_of_run_ok h, mapElements_mark_erase fun e _ _ hdummy =>
    OpeningElement.eraseByPosition_addAttribute hdummy _]
  apply Program.mapElements_eq_self
  intro e member
  rcases position_cases marker e with hdummy | hunplaced | ⟨hdummy, line, hline⟩
  · rw [erased_of_dummy hdummy, OpeningElement.eraseByPosition, if_pos hdummy]
  · exact absurd hunplaced (placed_of_run_ok h e member)
  · exact erased_of_line hdummy hline

/-- Erasing by name after a run shows in the number of attributes, wherever it leaves
something else than there was. -/
theorem erased_eraseByName_of_length {e : Element}
    (h : (marker.erased OpeningElement.eraseByName e).attributes.length = e.attributes.length) :
    marker.erased OpeningElement.eraseByName e = e := by
  rcases position_cases marker e with hdummy | hunplaced | ⟨hdummy, line, hline⟩
  · rw [erased_of_dummy hdummy] at h ⊢
    exact OpeningElement.eraseByName_of_length h
  · rw [erased_of_unplaced hunplaced] at h ⊢
    exact OpeningElement.eraseByName_of_length h
  · exact erased_of_line hdummy hline

theorem eraseByName_of_run_ok_iff {program marked : Program}
    (h : (marker.run program).result = .ok marked) :
    marked.mapElements OpeningElement.eraseByName = program ↔
      ∀ e ∈ program.elements, e.span.isDummy = true → e.endsInSource = false := by
  rw [eq_mapElements_of_run_ok h, mapElements_mark_erase fun e fileName line _ =>
      OpeningElement.eraseByName_addAttribute e fileName line,
    Program.mapElements_eq_self_iff fun _ => erased_eraseByName_of_length]
  constructor
  · intro hsame e member hdummy
    have hself := hsame e member
    rw [erased_of_dummy hdummy] at hself
    exact OpeningElement.endsInSource_of_eraseByName hself
  · intro hends e member
    rcases position_cases marker e with hdummy | hunplaced | ⟨hdummy, line, hline⟩
    · rw [erased_of_dummy hdummy]
      exact OpeningElement.eraseByName_of_endsInSource (hends e member hdummy)
    · exact absurd hunplaced (placed_of_run_ok h e member)
    · exact erased_of_line hdummy hline

/-- A run can be undone from what it returns. Erasing by position gives the program back,
so that no other program has the same result. Erasing by name gives it back exactly if no
element without a position had a last attribute of that name of its own. -/
theorem run_ok_erased {program marked : Program} (h : (marker.run program).result = .ok marked) :
    marked.mapElements OpeningElement.eraseByPosition = program ∧
      (∀ other, (marker.run other).result = .ok marked → other = program) ∧
      (marked.mapElements OpeningElement.eraseByName = program ↔
        ∀ e ∈ program.elements, e.span.isDummy = true →
          e.attributes.getLast?.bind Tree.attributeName? ≠ some "__source") := by
  refine ⟨eraseByPosition_of_run_ok h, ?_, ?_⟩
  · intro other hother
    rw [← eraseByPosition_of_run_ok h, eraseByPosition_of_run_ok hother]
  · simp only [← OpeningElement.endsInSource_eq_false_iff]
    exact eraseByName_of_run_ok_iff h

/-- A tag without a position that has a `__source` of its own, behind two that get marks. -/
theorem run_ok_erased_ownSource :
    let marker : Marker := ⟨"a.tsx", .ofFiles [⟨.anonymous, "ab\ncd"⟩]⟩
    let own : Tree :=
      .element ⟨.null, .dummy, [Marking.sourceAttribute "b.tsx" 7], true, .null⟩
    let program := { twoTags ⟨1, 9⟩ ⟨4, 6⟩ with interpreter := own }
    ∃ marked, (marker.run program).result = .ok marked ∧
      marked.mapElements OpeningElement.eraseByPosition = program ∧
      marked.mapElements OpeningElement.eraseByName ≠ program := by
  intro marker own program
  have h : (marker.run program).result = .ok (program.mapElements marker.mark) := rfl
  obtain ⟨hposition, _, hname⟩ := run_ok_erased h
  refine ⟨_, h, hposition, ?_⟩
  intro hsame
  exact hname.mp hsame _ (List.mem_of_getElem? (i := 2) rfl) rfl rfl

end Marker

end JsxProvenance
