import JsxProvenance.Marking.Session
import JsxProvenance.Proofs.Marking.Walk

/-!
Sessions as walks on their own. A walk begins with the counts of the walks before it, and
adds to them; it looks at them nowhere else. So a walk in a session leaves the same tree,
the same records and the same failure as the first walk of a fresh session would, and the
counts are the sums over all walks so far. A walk that fails adds the elements that it has
finished by then, and the ones after it do not notice.

The step `again` walks over what an earlier walk has left. `Marker.subjects` gives the
program in its place, so that a session can be compared with one walk for each subject.

Main statement: `Session.steps_eq_visits`.
-/

namespace JsxProvenance

namespace Counts

/-- The counts of several walks together. -/
def total (parts : List Counts) : Counts :=
  parts.foldr (· + ·) {}

theorem add_assoc (a b c : Counts) : a + b + c = a + (b + c) := by
  simp only [add_eq, Nat.add_assoc]

theorem zero_add (a : Counts) : {} + a = a := by
  simp only [add_eq, Nat.zero_add]

theorem total_append (parts more : List Counts) :
    total (parts ++ more) = total parts + total more := by
  induction parts with
  | nil => exact (zero_add _).symm
  | cons part rest ih =>
      have hcons : ∀ tail, total (part :: tail) = part + total tail := fun _ => rfl
      rw [List.cons_append, hcons, hcons, ih, add_assoc]

/-- Counts that are summed up over more walks are not less. -/
theorem total_take_le (parts : List Counts) {i j : Nat} (h : i ≤ j) :
    (total (parts.take i)).opening ≤ (total (parts.take j)).opening ∧
      (total (parts.take i)).selfClosing ≤ (total (parts.take j)).selfClosing ∧
      (total (parts.take i)).skipped ≤ (total (parts.take j)).skipped := by
  obtain ⟨more, rfl⟩ := Nat.exists_eq_add_of_le h
  rw [List.take_add, total_append]
  exact ⟨Nat.le_add_right _ _, Nat.le_add_right _ _, Nat.le_add_right _ _⟩

end Counts

namespace Walked

/-- The elements of what is walked over, in the order in which they are finished. -/
def elements : Walked → List Element
  | .program whole => whole.elements
  | .element e => e.elements

/-- Replaces the first `count` elements of what is walked over. -/
def mapFirst (f : Element → Element) (count : Nat) : Walked → Walked
  | .program whole => .program (whole.mapFirst f count)
  | .element e => .element (e.mapFirst f count)

end Walked

namespace Marker

variable (marker : Marker)

/-- The end of a whole walk over some elements, from the given counts on. -/
def progress (counts : Counts) (elements : List Element) : Progress where
  counts := counts + Counts.ofElements (marker.finished elements)
  records := marker.skipRecords (marker.finished elements)
  failure := (elements.find? fun e => marker.Unplaced e).map fun e => ⟨e.span.lo.toNat⟩

theorem foldl_advance_start (counts : Counts) (elements : List Element) :
    elements.foldl marker.advance (.start counts) = marker.progress counts elements := by
  rw [foldl_advance rfl]
  rfl

/-- A walk marks the elements that it finishes. The counts that it begins with are no
part of that. -/
theorem walkProgram_start (counts : Counts) (program : Program) :
    (marker.walkProgram program).run (.start counts) =
      (program.mapFirst marker.mark (marker.finished program.elements).length,
        marker.progress counts program.elements) := by
  rw [walkProgram, Program.traverse_finish, foldl_advance_start]
  rfl

theorem walkElement_start (counts : Counts) (e : Element) :
    (marker.walkElement e).run (.start counts) =
      (e.mapFirst marker.mark (marker.finished e.elements).length,
        marker.progress counts e.elements) := by
  have hwalk := OpeningElement.traverse_finish e (Tree.traverse_finish marker e.tag)
    (fun item _ => Tree.traverse_finish marker item)
    (Tree.traverse_finish marker e.typeArguments) (.start counts) []
  rw [List.append_nil] at hwalk
  rw [walkElement, hwalk, foldl_advance_start]
  rfl

/-- The outcome of one walk by a fresh marker. -/
def visit : Walked → StepOutcome
  | .program program => (Session.stepProgram marker {} program).1
  | .element e => (Session.stepElement marker {} e).1

/-- The program that a walk by a fresh marker leaves. -/
def left (program : Program) : Program :=
  ((marker.walkProgram program).run (.start {})).1

/-- What the steps of a session walk over, if `latest` was left by the last walk over a
program. -/
def subjects (latest : Option Program) : List Step → List Walked
  | [] => []
  | .program program :: rest =>
      .program program :: subjects (some (marker.left program)) rest
  | .again :: rest =>
      match latest with
      | none => subjects none rest
      | some program => .program program :: subjects (some (marker.left program)) rest
  | .element e :: rest => .element e :: subjects latest rest

/-- A walk on its own, in closed form. -/
theorem visit_eq (subject : Walked) :
    marker.visit subject =
      { walked := subject.mapFirst marker.mark (marker.finished subject.elements).length
        records := (marker.progress {} subject.elements).records
        failure := (marker.progress {} subject.elements).failure
        counts := Counts.ofElements (marker.finished subject.elements) } := by
  have hcounts := Counts.zero_add (Counts.ofElements (marker.finished subject.elements))
  cases subject with
  | program program =>
      simp only [visit, Session.stepProgram, walkProgram_start]
      rw [← hcounts]
      rfl
  | element e =>
      simp only [visit, Session.stepElement, walkElement_start]
      rw [← hcounts]
      rfl

theorem counts_visit (subject : Walked) :
    (marker.visit subject).counts = Counts.ofElements (marker.finished subject.elements) := by
  rw [visit_eq]

variable {marker}

/-- The first element without a place comes right behind those that are finished. -/
theorem finished_of_find? {elements : List Element} {e : Element}
    (h : (elements.find? fun e => marker.Unplaced e) = some e) :
    ∃ after, elements = marker.finished elements ++ e :: after ∧ marker.Unplaced e := by
  obtain ⟨hplace, before, after, hsplit, hbefore⟩ := List.find?_eq_some_iff_append.mp h
  have hunplaced : marker.Unplaced e := by simpa using hplace
  have hplaced : ∀ other ∈ before, ¬ marker.Unplaced other := by
    intro other member
    simpa using hbefore other member
  refine ⟨after, ?_, hunplaced⟩
  rw [hsplit, finished_append after hplaced hunplaced]

theorem finished_of_success {subject : Walked} (h : (marker.visit subject).failure = none) :
    marker.finished subject.elements = subject.elements := by
  rw [visit_eq] at h
  have hplaced : ∀ e ∈ subject.elements, ¬ marker.Unplaced e := by
    simpa [progress] using h
  exact finished_eq_self hplaced

theorem finished_of_failure {subject : Walked} {failure : NoFileFor}
    (h : (marker.visit subject).failure = some failure) :
    ∃ e after, subject.elements = marker.finished subject.elements ++ e :: after ∧
      marker.Unplaced e ∧ failure = ⟨e.span.lo.toNat⟩ := by
  rw [visit_eq] at h
  obtain ⟨e, hfind, rfl⟩ := Option.map_eq_some_iff.mp h
  obtain ⟨after, hsplit, hunplaced⟩ := finished_of_find? hfind
  exact ⟨e, after, hsplit, hunplaced, rfl⟩

end Marker

namespace Session

variable (marker : Marker)

/-- A step over a program adds to the counts of the session, and does all else as if it
were the first. -/
theorem stepProgram_eq (session : Session) (program : Program) :
    session.stepProgram marker program =
      ({ marker.visit (.program program) with
          counts := session.counts + (marker.visit (.program program)).counts },
        ⟨session.counts + (marker.visit (.program program)).counts,
          some (marker.left program)⟩) := by
  rw [Marker.counts_visit]
  simp only [stepProgram, Marker.visit, Marker.left, Marker.walkProgram_start]
  rfl

theorem stepElement_eq (session : Session) (e : Element) :
    session.stepElement marker e =
      ({ marker.visit (.element e) with
          counts := session.counts + (marker.visit (.element e)).counts },
        ⟨session.counts + (marker.visit (.element e)).counts, session.latest⟩) := by
  rw [Marker.counts_visit]
  simp only [stepElement, Marker.visit, Marker.walkElement_start]
  rfl

/-- The outcomes of walks on their own, with the counts summed up from `before` on. -/
def summed (before : Counts) : List Walked → List StepOutcome
  | [] => []
  | subject :: rest =>
      let counts := before + (marker.visit subject).counts
      { marker.visit subject with counts } :: summed counts rest

/-- A session is a walk on its own for each subject. The induction is on the steps, and
generalizes over what the session remembers. -/
theorem steps_eq_summed (session : Session) (steps : List Step) :
    session.steps marker steps =
      summed marker session.counts (marker.subjects session.latest steps) := by
  induction steps generalizing session with
  | nil => rfl
  | cons step rest ih =>
      cases step with
      | program program =>
          simp only [Session.steps, step?, stepProgram_eq, ih, Marker.subjects, summed]
      | again =>
          cases hlatest : session.latest with
          | none => simp only [Session.steps, step?, hlatest, Option.map_none, ih, Marker.subjects]
          | some program =>
              simp only [Session.steps, step?, hlatest, Option.map_some, stepProgram_eq, ih,
                Marker.subjects, summed]
      | element e =>
          simp only [Session.steps, step?, stepElement_eq, ih, Marker.subjects, summed]

theorem summed_eq (before : Counts) (subjects : List Walked) :
    summed marker before subjects = subjects.zipIdx.map fun (subject, i) =>
      { marker.visit subject with
        counts := before + Counts.total ((subjects.take (i + 1)).map fun subject =>
          (marker.visit subject).counts) } := by
  induction subjects generalizing before with
  | nil => rfl
  | cons subject rest ih =>
      simp only [summed, ih, List.zipIdx_cons, List.map_cons, List.zipIdx_succ, List.map_map,
        List.take_succ_cons, List.take_zero, List.map_nil]
      congr 1
      apply List.map_congr_left
      intro entry _
      simp only [Function.comp_apply, Counts.total, List.foldr_cons, Counts.add_assoc]

/-- The outcomes of a session, in closed form. Each walk leaves what it would leave in a
fresh session, and the counts behind it are the sums, over the walks up to it, of the
elements that each of them finished: all of them, or those before the one at which it
failed. So the counts never get less. -/
theorem steps_eq_visits (marker : Marker) (steps : List Step) :
    let outcomes := Session.steps marker {} steps
    let subjects := marker.subjects none steps
    (outcomes = subjects.zipIdx.map fun (subject, i) =>
        { marker.visit subject with
          counts := Counts.total ((subjects.take (i + 1)).map fun subject =>
            Counts.ofElements (marker.finished subject.elements)) }) ∧
      (∀ subject ∈ subjects,
        ((marker.visit subject).failure = none →
          marker.finished subject.elements = subject.elements) ∧
        ∀ failure, (marker.visit subject).failure = some failure →
          ∃ e after, subject.elements = marker.finished subject.elements ++ e :: after ∧
            marker.Unplaced e ∧ failure = ⟨e.span.lo.toNat⟩) ∧
      ∀ (i j : Nat) (a b : StepOutcome), i ≤ j → outcomes[i]? = some a → outcomes[j]? = some b →
        a.counts.opening ≤ b.counts.opening ∧ a.counts.selfClosing ≤ b.counts.selfClosing ∧
          a.counts.skipped ≤ b.counts.skipped := by
  intro outcomes subjects
  have houtcomes : outcomes = subjects.zipIdx.map fun (subject, i) =>
      { marker.visit subject with
        counts := Counts.total ((subjects.take (i + 1)).map fun subject =>
          Counts.ofElements (marker.finished subject.elements)) } := by
    simp only [outcomes, subjects, steps_eq_summed, summed_eq, Marker.counts_visit,
      Counts.zero_add]
  refine ⟨houtcomes, ?_, ?_⟩
  · intro subject _
    exact ⟨Marker.finished_of_success, fun _ => Marker.finished_of_failure⟩
  · intro i j a b hle ha hb
    have hcounts : ∀ (number : Nat) (outcome : StepOutcome), outcomes[number]? = some outcome →
        outcome.counts = Counts.total ((subjects.map fun subject =>
          Counts.ofElements (marker.finished subject.elements)).take (number + 1)) := by
      intro number outcome hnumber
      rw [houtcomes, List.getElem?_map, List.getElem?_zipIdx] at hnumber
      obtain ⟨entry, hentry, rfl⟩ := Option.map_eq_some_iff.mp hnumber
      obtain ⟨subject, _, rfl⟩ := Option.map_eq_some_iff.mp hentry
      simp only [Nat.zero_add, List.map_take]
    rw [hcounts i a ha, hcounts j b hb]
    exact Counts.total_take_le _ (Nat.add_le_add_right hle 1)

/-- Both walks mark the inner tag and fail at the outer one: no file holds its position. -/
example :
    let inner : Tree := .element ⟨.null, ⟨1, 2⟩, [], true, .null⟩
    let outer : Tree := .element ⟨.null, ⟨0, 9⟩, [inner], false, .null⟩
    (Session.steps ⟨"a.tsx", .ofFiles [⟨.anonymous, "ab"⟩]⟩ {}
      [.program ⟨.script, .dummy, [outer], .null⟩, .again]).map (fun outcome =>
        (outcome.failure, outcome.counts)) =
      [(some ⟨0⟩, { selfClosing := 1 }), (some ⟨0⟩, { selfClosing := 2 })] := by
  decide

end Session

end JsxProvenance
