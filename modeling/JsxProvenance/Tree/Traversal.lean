import JsxProvenance.Tree.Basic

/-!
Ways to go through the elements of a tree. An element is finished after
everything nested in its own fields, so `traverse` acts on an element whose tag,
attributes and type arguments have been traversed already. `mapElements` is the
same walk without effects, `elements` lists the elements in the order in which
they are finished, and `mapFirst` stops after the first of them.

Each of these is one function for trees, one for elements, and three for the
lists of trees and fields in between.
-/

namespace JsxProvenance

section Traverse

variable {m : Type → Type} [Monad m]

mutual

/-- Acts on every element of a tree, in the order in which they are finished. -/
def Tree.traverse (f : Element → m Element) : Tree → m Tree
  | .list items => return .list (← Tree.traverseItems f items)
  | .node kind fields => return .node kind (← Tree.traverseFields f fields)
  | .record fields => return .record (← Tree.traverseFields f fields)
  | .element e => return .element (← OpeningElement.traverse f e)
  | .null => return .null
  | .bool value => return .bool value
  | .number value => return .number value
  | .text value => return .text value
  | .span value => return .span value
termination_by structural tree => tree

/-- Acts on the elements nested in an element, then on the element itself. -/
def OpeningElement.traverse (f : Element → m Element) : Element → m Element
  | ⟨tag, span, attributes, selfClosing, typeArguments⟩ => do
      let tag ← Tree.traverse f tag
      let attributes ← Tree.traverseItems f attributes
      let typeArguments ← Tree.traverse f typeArguments
      f ⟨tag, span, attributes, selfClosing, typeArguments⟩
termination_by structural e => e

def Tree.traverseItems (f : Element → m Element) : List Tree → m (List Tree)
  | [] => return []
  | item :: rest => return (← Tree.traverse f item) :: (← Tree.traverseItems f rest)
termination_by structural items => items

def Tree.traverseFields (f : Element → m Element) :
    List (String × Tree) → m (List (String × Tree))
  | [] => return []
  | field :: rest => return (← Tree.traverseField f field) :: (← Tree.traverseFields f rest)
termination_by structural fields => fields

def Tree.traverseField (f : Element → m Element) : String × Tree → m (String × Tree)
  | (name, value) => return (name, ← Tree.traverse f value)
termination_by structural field => field

end

/-- Acts on every element of a program. -/
def Program.traverse (f : Element → m Element) (program : Program) : m Program := do
  let body ← Tree.traverseItems f program.body
  let interpreter ← program.interpreter.traverse f
  return { program with body, interpreter }

end Traverse

mutual

/-- Replaces every element of a tree, those nested in an element before the
element itself. -/
def Tree.mapElements (f : Element → Element) : Tree → Tree
  | .list items => .list (Tree.mapItems f items)
  | .node kind fields => .node kind (Tree.mapFields f fields)
  | .record fields => .record (Tree.mapFields f fields)
  | .element e => .element (OpeningElement.mapElements f e)
  | .null => .null
  | .bool value => .bool value
  | .number value => .number value
  | .text value => .text value
  | .span value => .span value
termination_by structural tree => tree

def OpeningElement.mapElements (f : Element → Element) : Element → Element
  | ⟨tag, span, attributes, selfClosing, typeArguments⟩ =>
      f ⟨Tree.mapElements f tag, span, Tree.mapItems f attributes, selfClosing,
        Tree.mapElements f typeArguments⟩
termination_by structural e => e

def Tree.mapItems (f : Element → Element) : List Tree → List Tree
  | [] => []
  | item :: rest => Tree.mapElements f item :: Tree.mapItems f rest
termination_by structural items => items

def Tree.mapFields (f : Element → Element) : List (String × Tree) → List (String × Tree)
  | [] => []
  | field :: rest => Tree.mapField f field :: Tree.mapFields f rest
termination_by structural fields => fields

def Tree.mapField (f : Element → Element) : String × Tree → String × Tree
  | (name, value) => (name, Tree.mapElements f value)
termination_by structural field => field

end

theorem Tree.mapItems_eq_map (f : Element → Element) (items : List Tree) :
    Tree.mapItems f items = items.map (Tree.mapElements f) := by
  induction items with
  | nil => rfl
  | cons item rest ih => rw [Tree.mapItems, ih, List.map_cons]

theorem Tree.mapFields_eq_map (f : Element → Element) (fields : List (String × Tree)) :
    Tree.mapFields f fields = fields.map fun field => (field.1, field.2.mapElements f) := by
  induction fields with
  | nil => rfl
  | cons field rest ih =>
      obtain ⟨name, value⟩ := field
      rw [Tree.mapFields, Tree.mapField, ih, List.map_cons]

/-- Replaces every element of a program. -/
def Program.mapElements (f : Element → Element) (program : Program) : Program :=
  { program with
    body := Tree.mapItems f program.body
    interpreter := program.interpreter.mapElements f }

mutual

/-- The elements of a tree, in the order in which they are finished. -/
def Tree.elements : Tree → List Element
  | .list items => Tree.elementsOfItems items
  | .node _ fields | .record fields => Tree.elementsOfFields fields
  | .element e => OpeningElement.elements e
  | .null | .bool _ | .number _ | .text _ | .span _ => []
termination_by structural tree => tree

/-- The elements nested in an element, and then the element itself. -/
def OpeningElement.elements : Element → List Element
  | ⟨tag, span, attributes, selfClosing, typeArguments⟩ =>
      Tree.elements tag ++ Tree.elementsOfItems attributes ++ Tree.elements typeArguments ++
        [⟨tag, span, attributes, selfClosing, typeArguments⟩]
termination_by structural e => e

def Tree.elementsOfItems : List Tree → List Element
  | [] => []
  | item :: rest => Tree.elements item ++ Tree.elementsOfItems rest
termination_by structural items => items

def Tree.elementsOfFields : List (String × Tree) → List Element
  | [] => []
  | field :: rest => Tree.elementsOfField field ++ Tree.elementsOfFields rest
termination_by structural fields => fields

def Tree.elementsOfField : String × Tree → List Element
  | (_, value) => Tree.elements value
termination_by structural field => field

end

theorem Tree.elementsOfItems_eq_flatMap (items : List Tree) :
    Tree.elementsOfItems items = items.flatMap Tree.elements := by
  induction items with
  | nil => rfl
  | cons item rest ih => rw [Tree.elementsOfItems, ih, List.flatMap_cons]

theorem Tree.elementsOfFields_eq_flatMap (fields : List (String × Tree)) :
    Tree.elementsOfFields fields = fields.flatMap fun field => field.2.elements := by
  induction fields with
  | nil => rfl
  | cons field rest ih =>
      obtain ⟨name, value⟩ := field
      rw [Tree.elementsOfFields, Tree.elementsOfField, ih, List.flatMap_cons]

/-- The elements of a program, in the order in which they are finished. -/
def Program.elements (program : Program) : List Element :=
  Tree.elementsOfItems program.body ++ program.interpreter.elements

mutual

/-- Replaces the first `count` elements of a tree, in the order in which they are
finished, and leaves the others as they are. -/
def Tree.mapFirst (f : Element → Element) (count : Nat) : Tree → Tree
  | .list items => .list (Tree.mapFirstItems f count items)
  | .node kind fields => .node kind (Tree.mapFirstFields f count fields)
  | .record fields => .record (Tree.mapFirstFields f count fields)
  | .element e => .element (OpeningElement.mapFirst f count e)
  | .null => .null
  | .bool value => .bool value
  | .number value => .number value
  | .text value => .text value
  | .span value => .span value
termination_by structural tree => tree

def OpeningElement.mapFirst (f : Element → Element) (count : Nat) : Element → Element
  | ⟨tag, span, attributes, selfClosing, typeArguments⟩ =>
      let afterTag := count - tag.elements.length
      let afterAttributes := afterTag - (Tree.elementsOfItems attributes).length
      let afterArguments := afterAttributes - typeArguments.elements.length
      let e : Element := ⟨Tree.mapFirst f count tag, span,
        Tree.mapFirstItems f afterTag attributes, selfClosing,
        Tree.mapFirst f afterAttributes typeArguments⟩
      if 0 < afterArguments then f e else e
termination_by structural e => e

def Tree.mapFirstItems (f : Element → Element) (count : Nat) : List Tree → List Tree
  | [] => []
  | item :: rest =>
      Tree.mapFirst f count item :: Tree.mapFirstItems f (count - item.elements.length) rest
termination_by structural items => items

def Tree.mapFirstFields (f : Element → Element) (count : Nat) :
    List (String × Tree) → List (String × Tree)
  | [] => []
  | field :: rest =>
      Tree.mapFirstField f count field ::
        Tree.mapFirstFields f (count - (Tree.elementsOfField field).length) rest
termination_by structural fields => fields

def Tree.mapFirstField (f : Element → Element) (count : Nat) : String × Tree → String × Tree
  | (name, value) => (name, Tree.mapFirst f count value)
termination_by structural field => field

end

/-- Replaces the first `count` elements of a program. -/
def Program.mapFirst (f : Element → Element) (count : Nat) (program : Program) : Program :=
  { program with
    body := Tree.mapFirstItems f count program.body
    interpreter :=
      program.interpreter.mapFirst f (count - (Tree.elementsOfItems program.body).length) }

end JsxProvenance
