import JsxProvenance.Tree.Basic

/-!
Induction over trees. What is nested in a tree stands in lists, and in pairs of
a name and a tree; the principle here speaks of the members of those lists, so
that a proof about trees needs no companions about lists of trees.
-/

namespace JsxProvenance

section

set_option linter.unusedSectionVars false

variable {motive : Tree → Prop} (null : motive .null) (bool : ∀ value, motive (.bool value))
  (number : ∀ value, motive (.number value))
  (text : ∀ value, motive (.text value)) (span : ∀ value, motive (.span value))
  (list : ∀ items, (∀ item ∈ items, motive item) → motive (.list items))
  (node : ∀ kind fields, (∀ field ∈ fields, motive field.2) → motive (.node kind fields))
  (record : ∀ fields, (∀ field ∈ fields, motive field.2) → motive (.record fields))
  (element : ∀ e : Element, motive e.tag → (∀ item ∈ e.attributes, motive item) →
    motive e.typeArguments → motive (.element e))

include null bool number text span list node record element

mutual

/-- A statement holds of every tree if each constructor hands it on. -/
@[elab_as_elim]
theorem Tree.induction : ∀ tree : Tree, motive tree
  | .null => null
  | .bool value => bool value
  | .number value => number value
  | .text value => text value
  | .span value => span value
  | .list items => list items (Tree.inductionItems items)
  | .node kind fields => node kind fields (Tree.inductionFields fields)
  | .record fields => record fields (Tree.inductionFields fields)
  | .element ⟨tag, span', attributes, selfClosing, typeArguments⟩ =>
      element ⟨tag, span', attributes, selfClosing, typeArguments⟩ (Tree.induction tag)
        (Tree.inductionItems attributes) (Tree.induction typeArguments)

theorem Tree.inductionItems : ∀ items : List Tree, ∀ item ∈ items, motive item
  | [] => fun _ h => nomatch h
  | first :: rest => fun item h => by
      rcases List.mem_cons.mp h with heq | hrest
      · exact heq ▸ Tree.induction first
      · exact Tree.inductionItems rest item hrest

theorem Tree.inductionFields :
    ∀ fields : List (String × Tree), ∀ field ∈ fields, motive field.2
  | [] => fun _ h => nomatch h
  | (name, value) :: rest => fun field h => by
      rcases List.mem_cons.mp h with heq | hrest
      · exact heq ▸ Tree.induction value
      · exact Tree.inductionFields rest field hrest

end

end

end JsxProvenance
