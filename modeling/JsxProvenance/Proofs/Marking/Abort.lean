import JsxProvenance.Marking.Erase
import JsxProvenance.Proofs.Marking.Accounts
import JsxProvenance.Proofs.Marking.LineNumber
import JsxProvenance.Proofs.Tree.First

/-!
What a walk leaves behind when it fails half-way. The element it fails at may be deep in
the attributes of others, and these are then not finished either. Still the tree has a
simple form: the elements are numbered in the order in which they are finished, and the
walk has marked those with a lower number than the one it failed at, as a whole run would
have done. That one and all with higher numbers have the attributes they had; they differ
from before at most in what is nested in them and has a lower number. The counts and the
log tell of the elements with lower numbers and of no others.

Main statement: `Session.stepOver_aborted`.
-/

namespace JsxProvenance

namespace Walked

theorem nestedBefore_elements (subject : Walked) : NestedBefore subject.elements := by
  cases subject with
  | program program => exact program.nestedBefore_elements
  | element e => exact Tree.nestedBefore_elements (.element e)

theorem elements_mapFirst {f : Element → Element} (hf : ∀ e : Element, (f e).nested = e.nested)
    (subject : Walked) (count : Nat) :
    (subject.mapFirst f count).elements =
      subject.elements.mapIdx (OpeningElement.numbered f count) := by
  cases subject with
  | program program => exact Program.elements_mapFirst hf program count
  | element e => exact OpeningElement.elements_mapFirst hf e count

/-- The elements of a tree of which the first ones are replaced, by their numbers. -/
theorem getElem?_elements_mapFirst {f : Element → Element}
    (hf : ∀ e : Element, (f e).nested = e.nested) {subject : Walked} {i : Nat} {e : Element}
    (h : subject.elements[i]? = some e) (count : Nat) :
    (subject.mapFirst f count).elements[i]? = some (OpeningElement.numbered f count i e) := by
  rw [elements_mapFirst hf, List.getElem?_mapIdx, h]
  rfl

section Numbers

variable {f : Element → Element} (hf : ∀ e : Element, (f e).nested = e.nested)
  {subject : Walked} {before after : List Element} {e : Element}
  (hsplit : subject.elements = before ++ e :: after)

include hf hsplit

/-- An element before `e` is replaced, and so is all that is nested in it. -/
theorem getElem?_mapFirst_before {i : Nat} {other : Element} (h : before[i]? = some other) :
    (subject.mapFirst f before.length).elements[i]? = some (other.mapElements f) := by
  have hi : i < before.length := (List.getElem?_eq_some_iff.mp h).1
  have hother : subject.elements[i]? = some other := by
    rw [hsplit, List.getElem?_append_left hi, h]
  rw [getElem?_elements_mapFirst hf hother,
    OpeningElement.numbered_of_lt (subject.nestedBefore_elements i other hother) hi]

theorem getElem?_mapFirst_length :
    (subject.mapFirst f before.length).elements[before.length]? =
      some (e.mapParts (Tree.mapElements f)) := by
  have he : subject.elements[before.length]? = some e := by
    rw [hsplit, List.getElem?_append_right (Nat.le_refl _), Nat.sub_self]
    rfl
  rw [getElem?_elements_mapFirst hf he,
    OpeningElement.numbered_self (subject.nestedBefore_elements _ e he)]

theorem getElem?_mapFirst_after {i : Nat} {other : Element} (h : after[i]? = some other) :
    (subject.mapFirst f before.length).elements[before.length + 1 + i]? =
      some (other.mapFirstParts f (other.nested.length - (i + 1))) := by
  have hother : subject.elements[before.length + 1 + i]? = some other := by
    have hnumber : before.length + 1 + i - before.length = i + 1 := by omega
    rw [hsplit, List.getElem?_append_right (by omega), hnumber, List.getElem?_cons_succ, h]
  rw [getElem?_elements_mapFirst hf hother,
    OpeningElement.numbered_of_gt (subject.nestedBefore_elements _ other hother)]

end Numbers

end Walked

namespace Marker

/-- The visit of a tree in which `e` is the first element without a place. -/
theorem visit_of_first_unplaced {marker : Marker} {subject : Walked}
    {before after : List Element} {e : Element}
    (hsplit : subject.elements = before ++ e :: after)
    (hbefore : ∀ other ∈ before, ¬ marker.Unplaced other) (he : marker.Unplaced e) :
    marker.visit subject =
      { walked := subject.mapFirst marker.mark before.length
        records := marker.skipRecords before
        failure := some ⟨e.span.lo.toNat⟩
        counts := Counts.ofElements before } := by
  rw [visit_eq, progress, hsplit, find?_unplaced_append after hbefore he,
    finished_append after hbefore he]
  rfl

end Marker

namespace Session

/-- Walks over a program or an element. -/
def stepOver (marker : Marker) (session : Session) : Walked → StepOutcome × Session
  | .program program => session.stepProgram marker program
  | .element e => session.stepElement marker e

theorem stepOver_eq (marker : Marker) (session : Session) (subject : Walked) :
    (session.stepOver marker subject).1 =
        { marker.visit subject with
          counts := session.counts + (marker.visit subject).counts } ∧
      (session.stepOver marker subject).2.counts =
        session.counts + (marker.visit subject).counts := by
  cases subject with
  | program program =>
      rw [stepOver, stepProgram_eq]
      exact ⟨rfl, rfl⟩
  | element e =>
      rw [stepOver, stepElement_eq]
      exact ⟨rfl, rfl⟩

/-- A walk that fails. With the elements numbered in the order in which they are finished,
let `e` be the first whose position no file holds. Then all before it are marked inside, and
those with a position have one attribute more, behind their own: it is called `__source`,
and gives the name of the marker and the line of the position. `e` itself is only marked
inside, and so is what comes after it, as far as elements from before `e` are nested there.
Nothing else in the tree is changed. The counts have grown by those of the elements before
`e`. -/
theorem stepOver_aborted (marker : Marker) (session : Session) {subject : Walked}
    {before after : List Element} {e : Element}
    (hsplit : subject.elements = before ++ e :: after)
    (hbefore : ∀ other ∈ before, ¬ marker.Unplaced other) (he : marker.Unplaced e) :
    let step := session.stepOver marker subject
    let left := step.1.walked
    let inside := OpeningElement.mapParts (Tree.mapElements marker.mark)
    left = subject.mapFirst marker.mark before.length ∧
      left.elements.length = subject.elements.length ∧
      (∀ (i : Nat) (other : Element), before[i]? = some other →
        (other.span.isDummy = true → left.elements[i]? = some (inside other)) ∧
        (other.span.isDummy = false →
          ∃ (line : Nat) (added : Tree),
            marker.map.lineAt? other.span.lo.toNat = some line ∧
            left.elements[i]? = some
              { inside other with attributes := (inside other).attributes ++ [added] } ∧
            added = Marking.sourceAttribute marker.fileName line ∧
            added.attributeName? = some "__source" ∧
            added.place? = some (marker.fileName, .int (Scaled.nearest line 1).toNat) ∧
            ∀ files, marker.map = .ofFiles files →
              added.place? = some (marker.fileName, .int line))) ∧
      left.elements[before.length]? = some (inside e) ∧
      (∀ (i : Nat) (other : Element), after[i]? = some other →
        ∃ changed, left.elements[before.length + 1 + i]? = some changed ∧
          changed = other.mapFirstParts marker.mark (other.nested.length - (i + 1)) ∧
          changed.attributes.length = other.attributes.length ∧
          (other.nested.length ≤ i → changed = other)) ∧
      step.1.failure = some ⟨e.span.lo.toNat⟩ ∧
      step.1.records = (before.filter (·.span.isDummy)).map
        (fun other => .noPosition marker.fileName other.form) ∧
      step.2.counts =
        { opening := session.counts.opening +
            before.countP (fun other => !other.span.isDummy && !other.selfClosing)
          selfClosing := session.counts.selfClosing +
            before.countP (fun other => !other.span.isDummy && other.selfClosing)
          skipped := session.counts.skipped + before.countP (·.span.isDummy) } := by
  intro step left inside
  obtain ⟨houtcome, hcounts⟩ := session.stepOver_eq marker subject
  rw [Marker.visit_of_first_unplaced hsplit hbefore he] at houtcome hcounts
  have hleft : left = subject.mapFirst marker.mark before.length :=
    congrArg StepOutcome.walked houtcome
  have hlength : left.elements.length = subject.elements.length := by
    rw [hleft, Walked.elements_mapFirst marker.nested_mark, List.length_mapIdx]
  refine ⟨hleft, hlength, ?_, ?_, ?_, congrArg StepOutcome.failure houtcome,
    congrArg StepOutcome.records houtcome, ?_⟩
  · intro i other hother
    rw [hleft, Walked.getElem?_mapFirst_before marker.nested_mark hsplit hother]
    constructor
    · intro hdummy
      rw [Marker.mapElements_mark_of_dummy hdummy]
    · intro hdummy
      obtain ⟨line, hline⟩ :=
        Marker.line_of_placed hdummy (hbefore other (List.mem_of_getElem? hother))
      refine ⟨line, _, hline, ?_, rfl, Marking.attributeName?_sourceAttribute _ line,
        Marking.place?_sourceAttribute _ line, ?_⟩
      · rw [Marker.mapElements_mark_of_line hdummy hline]
      · intro files hfiles
        rw [hfiles] at hline
        rw [Marking.place?_sourceAttribute, Marker.nearest_of_lineAt? hline]
  · rw [hleft]
    exact Walked.getElem?_mapFirst_length marker.nested_mark hsplit
  · intro i other hother
    rw [hleft, Walked.getElem?_mapFirst_after marker.nested_mark hsplit hother]
    refine ⟨_, rfl, rfl, OpeningElement.length_attributes_mapFirstParts _ other, ?_⟩
    intro hnested
    have hnone : other.nested.length - (i + 1) = 0 := by omega
    rw [hnone, OpeningElement.mapFirstParts_zero]
  · rw [hcounts]
    simp only [Counts.add_eq, Counts.ofElements, OpeningElement.form_beq_opening,
      OpeningElement.form_beq_selfClosing]

/-- The walk fails at the second of three tags among the attributes of a fourth. -/
theorem stepOver_aborted_secondOfThree :
    let marker : Marker := ⟨"a.tsx", .ofFiles [⟨.anonymous, "ab\ncd"⟩]⟩
    let first : Element := ⟨.null, ⟨4, 6⟩, [], true, .null⟩
    let second : Element := ⟨.null, ⟨0, 7⟩, [], true, .null⟩
    let third : Element := ⟨.null, ⟨2, 3⟩, [], true, .null⟩
    let outer : Element :=
      ⟨.null, ⟨1, 9⟩, [.element first, .element second, .element third], false, .null⟩
    let step := Session.stepOver marker { counts := ⟨1, 2, 3⟩ } (.element outer)
    ∃ (added : Tree) (last : Element),
      outer.elements = [first] ++ second :: [third, outer] ∧
      step.1.failure = some ⟨0⟩ ∧ step.2.counts = ⟨1, 3, 3⟩ ∧
      step.1.walked.elements[0]? = some { first with attributes := [added] } ∧
      added.attributeName? = some "__source" ∧ added.place? = some ("a.tsx", .int 2) ∧
      step.1.walked.elements[1]? = some second ∧ step.1.walked.elements[2]? = some third ∧
      step.1.walked.elements[3]? = some last ∧ last.attributes.length = 3 := by
  intro marker first second third outer step
  have hfirst : marker.map.lineAt? first.span.lo.toNat = some 2 := rfl
  have hbefore : ∀ other ∈ [first], ¬ marker.Unplaced other := by
    intro other member
    rw [List.mem_singleton.mp member]
    exact Marker.not_unplaced_of_line hfirst
  have hsplit : (Walked.element outer).elements = [first] ++ second :: [third, outer] := rfl
  obtain ⟨_, _, hmarks, hsecond, hlater, hfailure, _, hcounts⟩ :=
    stepOver_aborted marker { counts := ⟨1, 2, 3⟩ } hsplit hbefore ⟨rfl, rfl⟩
  obtain ⟨line, added, hline, hmarked, _, hname, _, hplace⟩ := (hmarks 0 first rfl).2 rfl
  obtain ⟨_, hthird, _, _, hsame⟩ := hlater 0 third rfl
  obtain ⟨last, hlast, _, hlength, _⟩ := hlater 1 outer rfl
  obtain rfl : 2 = line := Option.some.inj (hfirst.symm.trans hline)
  rw [hsame (Nat.le_refl 0)] at hthird
  exact ⟨added, last, hsplit, hfailure, hcounts, hmarked, hname, hplace _ rfl, hsecond, hthird,
    hlast, hlength⟩

end Session

end JsxProvenance
