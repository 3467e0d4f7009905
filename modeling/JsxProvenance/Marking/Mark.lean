import JsxProvenance.Marking.Walk

/-!
What marking comes to, said of one element at a time and without a walk. An
element with a position gets the attribute of its line; one without stays as it
is. The counts of finished elements follow from the list of them.
-/

namespace JsxProvenance

namespace Marker

/-- The mark that a marker puts on an element, whatever is nested in it. -/
def mark (marker : Marker) (e : Element) : Element :=
  if e.span.isDummy then e
  else
    match marker.map.lineAt? e.span.lo.toNat with
    | none => e
    | some line => e.addAttribute (Marking.sourceAttribute marker.fileName line)

/-- The element has a position, but no file holds it. -/
def Unplaced (marker : Marker) (e : Element) : Prop :=
  e.span.isDummy = false ∧ marker.map.lineAt? e.span.lo.toNat = none

instance (marker : Marker) (e : Element) : Decidable (marker.Unplaced e) :=
  inferInstanceAs (Decidable (_ ∧ _))

/-- The records of elements that have no position. -/
def skipRecords (marker : Marker) (elements : List Element) : List Record :=
  (elements.filter (·.span.isDummy)).map fun e => .noPosition marker.fileName e.form

end Marker

namespace Counts

/-- The counts of elements that were all finished. -/
def ofElements (elements : List Element) : Counts where
  opening := elements.countP fun e => !e.span.isDummy && e.form == .opening
  selfClosing := elements.countP fun e => !e.span.isDummy && e.form == .selfClosing
  skipped := elements.countP fun e => e.span.isDummy

instance : Add Counts :=
  ⟨fun a b => ⟨a.opening + b.opening, a.selfClosing + b.selfClosing, a.skipped + b.skipped⟩⟩

/-- Every element is counted once. -/
theorem total_ofElements (elements : List Element) :
    (ofElements elements).marked + (ofElements elements).skipped = elements.length := by
  induction elements with
  | nil => rfl
  | cons e rest ih =>
      simp only [ofElements, marked, List.countP_cons, List.length_cons] at ih ⊢
      cases e.span.isDummy <;> cases e.form <;> simp <;> omega

end Counts

end JsxProvenance
