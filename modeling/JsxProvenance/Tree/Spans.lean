import JsxProvenance.Tree.Basic

/-!
The spans of a tree: of the whole, and of everything in it that has one.
-/

namespace JsxProvenance

mutual

/-- All spans in a tree, those of opening tags included. -/
def Tree.spans : Tree → List Span
  | .span value => [value]
  | .list items => Tree.spansOfItems items
  | .node _ fields | .record fields => Tree.spansOfFields fields
  | .element e => OpeningElement.spans e
  | .null | .bool _ | .number _ | .text _ => []
termination_by structural tree => tree

def OpeningElement.spans : Element → List Span
  | ⟨tag, span, attributes, _, typeArguments⟩ =>
      Tree.spans tag ++ span :: Tree.spansOfItems attributes ++ Tree.spans typeArguments
termination_by structural e => e

def Tree.spansOfItems : List Tree → List Span
  | [] => []
  | item :: rest => Tree.spans item ++ Tree.spansOfItems rest
termination_by structural items => items

def Tree.spansOfFields : List (String × Tree) → List Span
  | [] => []
  | field :: rest => Tree.spansOfField field ++ Tree.spansOfFields rest
termination_by structural fields => fields

def Tree.spansOfField : String × Tree → List Span
  | (_, value) => Tree.spans value
termination_by structural field => field

end

theorem Tree.spansOfItems_eq_flatMap (items : List Tree) :
    Tree.spansOfItems items = items.flatMap Tree.spans := by
  induction items with
  | nil => rfl
  | cons item rest ih => rw [Tree.spansOfItems, ih, List.flatMap_cons]

theorem Tree.spansOfFields_eq_flatMap (fields : List (String × Tree)) :
    Tree.spansOfFields fields = fields.flatMap fun field => field.2.spans := by
  induction fields with
  | nil => rfl
  | cons field rest ih =>
      obtain ⟨name, value⟩ := field
      rw [Tree.spansOfFields, Tree.spansOfField, ih, List.flatMap_cons]

theorem OpeningElement.spans_eq (e : Element) :
    e.spans = e.tag.spans ++ e.span :: e.attributes.flatMap Tree.spans ++
      e.typeArguments.spans := by
  obtain ⟨tag, span, attributes, selfClosing, typeArguments⟩ := e
  rw [OpeningElement.spans, Tree.spansOfItems_eq_flatMap]

/-- All spans of a program, its own first. -/
def Program.spans (program : Program) : List Span :=
  program.span :: Tree.spansOfItems program.body ++ program.interpreter.spans

end JsxProvenance
