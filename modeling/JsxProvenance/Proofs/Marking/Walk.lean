import JsxProvenance.Marking.Mark
import JsxProvenance.Proofs.Tree.Mapping
import Mathlib.Data.List.TakeWhile

/-!
What a walk comes to. A walk goes over the tree, but what it does to the progress
can be read off the list of elements alone: it is a fold of `advance` over that list.
The tree that it leaves is the input with the first elements marked, as many of them
as were finished before the walk failed. `Tree.traverse_finish` says both at once.

The induction speaks of the elements that follow a tree as well: how many elements
of the tree are marked is then the same number that counts for the whole walk, less
those that came before.

Main statement: `Marker.run_eq`, which gives the outcome of a run in closed form.
-/

namespace JsxProvenance

private theorem stateRunBind {σ α β : Type} (action : StateM σ α) (next : α → StateM σ β)
    (state : σ) :
    (action >>= next).run state = (next (action.run state).1).run (action.run state).2 := rfl

private theorem stateRunPure {σ α : Type} (value : α) (state : σ) :
    (pure value : StateM σ α).run state = (value, state) := rfl

namespace Marker

variable (marker : Marker)

/-- What finishing an element does to the progress of a walk. -/
def advance (progress : Progress) (e : Element) : Progress :=
  if progress.failure.isSome then progress
  else if e.span.isDummy then
    { progress.log (.noPosition marker.fileName e.form) with counts := progress.counts.skip }
  else
    match marker.map.lineAt? e.span.lo.toNat with
    | none => { progress with failure := some ⟨e.span.lo.toNat⟩ }
    | some _ => { progress with counts := progress.counts.add e.form }

/-- The elements that a walk over a list of elements finishes: all that come before
the first one without a place. -/
def finished (elements : List Element) : List Element :=
  elements.takeWhile fun e => !decide (marker.Unplaced e)

/-- How many of some elements a walk will finish. -/
def reach (progress : Progress) (elements : List Element) : Nat :=
  if progress.failure.isSome then 0 else (marker.finished elements).length

theorem finish_run (e : Element) (progress : Progress) :
    (marker.finish e).run progress =
      (if progress.failure.isSome then e else marker.mark e, marker.advance progress e) := by
  simp only [finish, advance, mark, StateT.run]
  cases progress.failure.isSome with
  | true => rfl
  | false =>
      cases e.span.isDummy with
      | true => rfl
      | false => cases marker.map.lineAt? e.span.lo.toNat <;> rfl

variable {marker}

theorem mark_of_unplaced {e : Element} (h : marker.Unplaced e) : marker.mark e = e := by
  simp [mark, h.1, h.2]

/-- An element has no position, or a position that no file holds, or one on some
line of a file. -/
theorem position_cases (marker : Marker) (e : Element) :
    e.span.isDummy = true ∨ marker.Unplaced e ∨
      e.span.isDummy = false ∧ ∃ line, marker.map.lineAt? e.span.lo.toNat = some line := by
  cases hdummy : e.span.isDummy with
  | true => exact Or.inl rfl
  | false =>
      cases hline : marker.map.lineAt? e.span.lo.toNat with
      | none => exact Or.inr (Or.inl ⟨hdummy, hline⟩)
      | some line => exact Or.inr (Or.inr ⟨rfl, line, rfl⟩)

theorem not_unplaced_of_dummy {e : Element} (h : e.span.isDummy = true) :
    ¬ marker.Unplaced e := by
  intro hplace
  rw [hplace.1] at h
  cases h

theorem not_unplaced_of_line {e : Element} {line : Nat}
    (h : marker.map.lineAt? e.span.lo.toNat = some line) : ¬ marker.Unplaced e := by
  intro hplace
  rw [hplace.2] at h
  cases h

section Advance

variable {progress : Progress} {e : Element}

theorem advance_of_failed (h : progress.failure.isSome = true) (e : Element) :
    marker.advance progress e = progress := by
  rw [advance, if_pos h]

theorem advance_of_dummy (hlive : progress.failure = none) (h : e.span.isDummy = true) :
    marker.advance progress e =
      ⟨progress.counts.skip, progress.records ++ [.noPosition marker.fileName e.form], none⟩ := by
  simp [advance, hlive, h, Progress.log]

theorem advance_of_unplaced (hlive : progress.failure = none) (h : marker.Unplaced e) :
    marker.advance progress e =
      ⟨progress.counts, progress.records, some ⟨e.span.lo.toNat⟩⟩ := by
  simp [advance, hlive, h.1, h.2]

theorem advance_of_line (hlive : progress.failure = none) (hdummy : e.span.isDummy = false)
    {line : Nat} (h : marker.map.lineAt? e.span.lo.toNat = some line) :
    marker.advance progress e =
      ⟨progress.counts.add e.form, progress.records, none⟩ := by
  simp [advance, hlive, hdummy, h]

/-- A walk fails at an element without a place, and at no other. -/
theorem failure_advance (hlive : progress.failure = none) (e : Element) :
    (marker.advance progress e).failure =
      if marker.Unplaced e then some ⟨e.span.lo.toNat⟩ else none := by
  rcases position_cases marker e with hdummy | hplace | ⟨hdummy, line, hline⟩
  · rw [advance_of_dummy hlive hdummy, if_neg (not_unplaced_of_dummy hdummy)]
  · rw [advance_of_unplaced hlive hplace, if_pos hplace]
  · rw [advance_of_line hlive hdummy hline, if_neg (not_unplaced_of_line hline)]

end Advance

theorem foldl_advance_of_failed {progress : Progress} (h : progress.failure.isSome = true)
    (elements : List Element) : elements.foldl marker.advance progress = progress := by
  induction elements with
  | nil => rfl
  | cons e rest ih => rw [List.foldl_cons, advance_of_failed h, ih]

theorem reach_of_failed {progress : Progress} (h : progress.failure.isSome = true)
    (elements : List Element) : marker.reach progress elements = 0 := by
  rw [reach, if_pos h]

/-- The elements of a walk are finished one after the other, up to the first that
has no place. -/
theorem reach_cons (progress : Progress) (e : Element) (rest : List Element) :
    marker.reach progress (e :: rest) =
      if progress.failure.isSome ∨ marker.Unplaced e then 0
      else marker.reach (marker.advance progress e) rest + 1 := by
  cases hfailure : progress.failure with
  | some failure => simp [reach, hfailure]
  | none =>
      by_cases hplace : marker.Unplaced e
      · simp [reach, finished, hfailure, hplace]
      · simp [reach, finished, hfailure, hplace, failure_advance hfailure]

/-- What is left to reach after some elements is what the walk reaches from there. -/
theorem reach_append (progress : Progress) (elements rest : List Element) :
    marker.reach progress (elements ++ rest) - elements.length =
      marker.reach (elements.foldl marker.advance progress) rest := by
  induction elements generalizing progress with
  | nil => rfl
  | cons e more ih =>
      rw [List.cons_append, List.foldl_cons, ← ih, reach_cons, List.length_cons]
      by_cases hstop : progress.failure.isSome = true ∨ marker.Unplaced e
      -- a walk that has stopped at `e` or before it reaches nothing more
      · have hfailed : (marker.advance progress e).failure.isSome = true := by
          cases hfailure : progress.failure with
          | some failure => simp [advance, hfailure]
          | none =>
              have hplace : marker.Unplaced e := by simpa [hfailure] using hstop
              simp [failure_advance hfailure, hplace]
        rw [if_pos hstop, reach_of_failed hfailed]
        omega
      · rw [if_neg hstop]
        omega

/-- The first of the elements to come is marked exactly if the walk is alive: one
without a place is the same with and without its mark. -/
theorem mark_of_reach {progress : Progress} {e changed : Element} {rest : List Element}
    (hspan : changed.span = e.span) :
    (if 0 < marker.reach progress (e :: rest) then marker.mark changed else changed) =
      if progress.failure.isSome then changed else marker.mark changed := by
  rw [reach_cons]
  cases hfailure : progress.failure with
  | some failure => simp
  | none =>
      by_cases hplace : marker.Unplaced e
      · have hchanged : marker.Unplaced changed := by
          simpa only [Unplaced, hspan] using hplace
        simp [hplace, mark_of_unplaced hchanged]
      · simp [hplace]

end Marker

section Traverse

variable (marker : Marker)

/-- What a walk over a tree comes to, whatever the progress before it and whatever
elements follow. -/
def Tree.Walked (tree : Tree) : Prop :=
  ∀ (progress : Progress) (rest : List Element),
    (tree.traverse marker.finish).run progress =
      (tree.mapFirst marker.mark (marker.reach progress (tree.elements ++ rest)),
        tree.elements.foldl marker.advance progress)

variable {marker}

theorem Tree.traverseItems_finish (items : List Tree)
    (hitems : ∀ item ∈ items, Tree.Walked marker item)
    (progress : Progress) (rest : List Element) :
    (Tree.traverseItems marker.finish items).run progress =
      (Tree.mapFirstItems marker.mark
          (marker.reach progress (Tree.elementsOfItems items ++ rest)) items,
        (Tree.elementsOfItems items).foldl marker.advance progress) := by
  induction items generalizing progress with
  | nil => rfl
  | cons item more ih =>
      have hitem := hitems item List.mem_cons_self progress (Tree.elementsOfItems more ++ rest)
      have hmore := ih (fun other member => hitems other (List.mem_cons_of_mem item member))
        (item.elements.foldl marker.advance progress)
      simp only [Tree.traverseItems, stateRunBind, stateRunPure, hitem, hmore,
        Tree.elementsOfItems, List.foldl_append, List.append_assoc, Tree.mapFirstItems,
        Marker.reach_append]

theorem Tree.traverseFields_finish (fields : List (String × Tree))
    (hfields : ∀ field ∈ fields, Tree.Walked marker field.2)
    (progress : Progress) (rest : List Element) :
    (Tree.traverseFields marker.finish fields).run progress =
      (Tree.mapFirstFields marker.mark
          (marker.reach progress (Tree.elementsOfFields fields ++ rest)) fields,
        (Tree.elementsOfFields fields).foldl marker.advance progress) := by
  induction fields generalizing progress with
  | nil => rfl
  | cons field more ih =>
      obtain ⟨name, value⟩ := field
      have hvalue := hfields (name, value) List.mem_cons_self progress
        (Tree.elementsOfFields more ++ rest)
      have hmore := ih (fun other member => hfields other (List.mem_cons_of_mem _ member))
        (value.elements.foldl marker.advance progress)
      simp only [Tree.traverseFields, Tree.traverseField, stateRunBind, stateRunPure, hvalue,
        hmore, Tree.elementsOfFields, Tree.elementsOfField, List.foldl_append,
        List.append_assoc, Tree.mapFirstFields, Tree.mapFirstField, Marker.reach_append]

/-- The element itself comes last: its parts have been walked over, and it is marked
if the walk has not failed in one of them and does not fail now. -/
theorem OpeningElement.traverse_finish (e : Element) (htag : Tree.Walked marker e.tag)
    (hattributes : ∀ item ∈ e.attributes, Tree.Walked marker item)
    (harguments : Tree.Walked marker e.typeArguments)
    (progress : Progress) (rest : List Element) :
    (e.traverse marker.finish).run progress =
      (e.mapFirst marker.mark (marker.reach progress (e.elements ++ rest)),
        e.elements.foldl marker.advance progress) := by
  obtain ⟨tag, span, attributes, selfClosing, typeArguments⟩ := e
  dsimp only at htag hattributes harguments
  let whole : Element := ⟨tag, span, attributes, selfClosing, typeArguments⟩
  let afterTag := tag.elements.foldl marker.advance progress
  let afterAttributes := (Tree.elementsOfItems attributes).foldl marker.advance afterTag
  -- each part is followed by the parts after it, the element itself, and the rest
  have hfirst := htag progress
    (Tree.elementsOfItems attributes ++ (typeArguments.elements ++ (whole :: rest)))
  have hsecond := Tree.traverseItems_finish attributes hattributes afterTag
    (typeArguments.elements ++ (whole :: rest))
  have hthird := harguments afterAttributes (whole :: rest)
  simp only [OpeningElement.traverse, stateRunBind, hfirst, hsecond, hthird, afterTag,
    afterAttributes, Marker.finish_run, OpeningElement.elements, OpeningElement.mapFirst,
    List.foldl_append, List.foldl_cons, List.foldl_nil, List.append_assoc,
    List.singleton_append, Marker.reach_append, whole]
  -- the element has new parts by now, but only its span and form matter from here on
  refine Prod.ext ?_ ?_
  · symm
    apply Marker.mark_of_reach
    rfl
  · rfl

/-- A walk over any tree marks the elements that it reaches, and its progress is the
fold of the steps over all of them. -/
theorem Tree.traverse_finish (marker : Marker) (tree : Tree) : Tree.Walked marker tree := by
  induction tree using Tree.induction with
  | null | bool | number | text | span =>
      intro progress rest
      rfl
  | list items ih =>
      intro progress rest
      simp only [Tree.traverse, stateRunBind, stateRunPure, Tree.mapFirst, Tree.elements,
        Tree.traverseItems_finish items ih progress rest]
  | node kind fields ih | record fields ih =>
      intro progress rest
      simp only [Tree.traverse, stateRunBind, stateRunPure, Tree.mapFirst, Tree.elements,
        Tree.traverseFields_finish fields ih progress rest]
  | element e htag hattributes harguments =>
      intro progress rest
      simp only [Tree.traverse, stateRunBind, stateRunPure, Tree.mapFirst, Tree.elements,
        OpeningElement.traverse_finish e htag hattributes harguments progress rest]


theorem Program.traverse_finish (marker : Marker) (program : Program) (progress : Progress) :
    (program.traverse marker.finish).run progress =
      (program.mapFirst marker.mark (marker.reach progress program.elements),
        program.elements.foldl marker.advance progress) := by
  have hbody := Tree.traverseItems_finish program.body
    (fun item _ => Tree.traverse_finish marker item) progress program.interpreter.elements
  have hinterpreter := Tree.traverse_finish marker program.interpreter
    ((Tree.elementsOfItems program.body).foldl marker.advance progress) []
  rw [List.append_nil] at hinterpreter
  simp only [Program.traverse, stateRunBind, stateRunPure, hbody, hinterpreter,
    Program.mapFirst, Program.elements, List.foldl_append, Marker.reach_append]

end Traverse

namespace Counts

theorem add_eq (a b : Counts) :
    a + b = ⟨a.opening + b.opening, a.selfClosing + b.selfClosing, a.skipped + b.skipped⟩ := rfl

theorem add_ofElements_of_dummy (counts : Counts) {e : Element} (rest : List Element)
    (h : e.span.isDummy = true) :
    counts + ofElements (e :: rest) = counts.skip + ofElements rest := by
  simp only [add_eq, ofElements, skip, List.countP_cons, h, mk.injEq]
  refine ⟨rfl, rfl, ?_⟩
  simp only [if_true]
  omega

theorem add_ofElements_of_position (counts : Counts) {e : Element} (rest : List Element)
    (h : e.span.isDummy = false) :
    counts + ofElements (e :: rest) = counts.add e.form + ofElements rest := by
  simp only [add_eq, ofElements, List.countP_cons, h]
  cases e.form <;> simp [add] <;> omega

/-- Only the positions and the forms of elements are counted. -/
theorem ofElements_map {g : Element → Element} {elements : List Element}
    (h : ∀ e ∈ elements, (g e).span.isDummy = e.span.isDummy ∧ (g e).form = e.form) :
    ofElements (elements.map g) = ofElements elements := by
  simp only [ofElements, List.countP_map, Function.comp_def, mk.injEq]
  refine ⟨?_, ?_, ?_⟩
  all_goals
    apply List.countP_congr
    intro e member
    simp only [h e member]

end Counts

namespace Marker

variable {marker : Marker}

theorem skipRecords_map {g : Element → Element} {elements : List Element}
    (h : ∀ e ∈ elements, (g e).span.isDummy = e.span.isDummy ∧ (g e).form = e.form) :
    marker.skipRecords (elements.map g) = marker.skipRecords elements := by
  have hfilter : elements.filter ((fun e : Element => e.span.isDummy) ∘ g) =
      elements.filter fun e => e.span.isDummy := by
    apply List.filter_congr
    intro e member
    exact (h e member).1
  rw [skipRecords, skipRecords, List.filter_map, List.map_map, hfilter]
  apply List.map_congr_left
  intro e member
  simp only [Function.comp_apply, (h e (List.mem_filter.mp member).1).2]

theorem skipRecords_cons_of_dummy {e : Element} (rest : List Element)
    (h : e.span.isDummy = true) :
    marker.skipRecords (e :: rest) =
      .noPosition marker.fileName e.form :: marker.skipRecords rest := by
  simp [skipRecords, h]

theorem skipRecords_cons_of_position {e : Element} (rest : List Element)
    (h : e.span.isDummy = false) :
    marker.skipRecords (e :: rest) = marker.skipRecords rest := by
  simp [skipRecords, h]

/-- The progress of a walk that had not failed before: the counts and records of the
elements that are finished, and the first position that no file holds. -/
theorem foldl_advance {progress : Progress} (hlive : progress.failure = none)
    (elements : List Element) :
    elements.foldl marker.advance progress =
      ⟨progress.counts + Counts.ofElements (marker.finished elements),
        progress.records ++ marker.skipRecords (marker.finished elements),
        (elements.find? fun e => marker.Unplaced e).map fun e => ⟨e.span.lo.toNat⟩⟩ := by
  induction elements generalizing progress with
  | nil =>
      obtain ⟨counts, records, failure⟩ := progress
      cases hlive
      simp [finished, skipRecords, Counts.add_eq, Counts.ofElements]
  | cons e rest ih =>
      rw [List.foldl_cons]
      rcases position_cases marker e with hdummy | hplace | ⟨hdummy, line, hline⟩
      · have hplace : ¬ marker.Unplaced e := not_unplaced_of_dummy hdummy
        have hfinished : marker.finished (e :: rest) = e :: marker.finished rest := by
          simp [finished, hplace]
        rw [advance_of_dummy hlive hdummy, ih rfl, hfinished,
          Counts.add_ofElements_of_dummy _ _ hdummy, skipRecords_cons_of_dummy _ hdummy]
        simp [hplace]
      · have hfinished : marker.finished (e :: rest) = [] := by
          simp [finished, hplace]
        rw [advance_of_unplaced hlive hplace, foldl_advance_of_failed rfl, hfinished]
        simp [hplace, skipRecords, Counts.add_eq, Counts.ofElements]
      · have hplace : ¬ marker.Unplaced e := not_unplaced_of_line hline
        have hfinished : marker.finished (e :: rest) = e :: marker.finished rest := by
          simp [finished, hplace]
        rw [advance_of_line hlive hdummy hline, ih rfl, hfinished,
          Counts.add_ofElements_of_position _ _ hdummy, skipRecords_cons_of_position _ hdummy]
        simp [hplace]

theorem finished_eq_self {elements : List Element}
    (h : ∀ e ∈ elements, ¬ marker.Unplaced e) : marker.finished elements = elements := by
  rw [finished, List.takeWhile_eq_self_iff]
  intro e member
  simpa using h e member

theorem finished_append {before : List Element} {e : Element} (rest : List Element)
    (hbefore : ∀ other ∈ before, ¬ marker.Unplaced other) (h : marker.Unplaced e) :
    marker.finished (before ++ e :: rest) = before := by
  have hall : ∀ other ∈ before, (!decide (marker.Unplaced other)) = true := by
    intro other member
    simpa using hbefore other member
  rw [finished, List.takeWhile_append_of_pos hall]
  simp [h]

theorem find?_unplaced_append {before : List Element} {e : Element} (rest : List Element)
    (hbefore : ∀ other ∈ before, ¬ marker.Unplaced other) (h : marker.Unplaced e) :
    ((before ++ e :: rest).find? fun e => marker.Unplaced e) = some e := by
  rw [List.find?_eq_some_iff_append]
  refine ⟨by simpa using h, before, rest, rfl, ?_⟩
  intro other member
  simpa using hbefore other member

/-- The outcome of a run: it fails at the first element without a place, and marks
every element if there is none. -/
theorem run_eq (marker : Marker) (program : Program) :
    marker.run program =
      match program.elements.find? fun e => marker.Unplaced e with
      | some e =>
          ⟨.error ⟨e.span.lo.toNat⟩, marker.skipRecords (marker.finished program.elements)⟩
      | none =>
          ⟨.ok (program.mapElements marker.mark), marker.skipRecords program.elements ++
            [.added marker.fileName (Counts.ofElements program.elements)]⟩ := by
  have hwalk := Program.traverse_finish marker program (.start {})
  rw [foldl_advance rfl] at hwalk
  simp only [run, walkProgram, hwalk]
  cases hfind : program.elements.find? fun e => marker.Unplaced e with
  | some e => simp [Progress.start]
  | none =>
      have hplaced : ∀ e ∈ program.elements, ¬ marker.Unplaced e := by
        simpa using hfind
      have hreach : marker.reach (.start {}) program.elements = program.elements.length := by
        simp [reach, Progress.start, finished_eq_self hplaced]
      simp only [Option.map_none, hreach, finished_eq_self hplaced,
        Program.mapFirst_eq_mapElements _ _ (Nat.le_refl _)]
      simp [Progress.start, Counts.add_eq]

end Marker

end JsxProvenance
