import JsxProvenance.Json.Basic
import JsxProvenance.Tree.Literal
import JsxProvenance.Tree.Schema

/-!
Node objects. Outside this library a program is an object, and so is every node in
it, the opening tags of elements included. The functions here read trees and
programs off such objects, by the shapes that the slots of the objects call for,
and give the fields of elements and programs back.
-/

namespace JsxProvenance

namespace Tree

/-- The span of syntax that has one. -/
def span? : Tree → Option Span
  | .span value => some value
  | _ => none

def items? : Tree → Option (List Tree)
  | .list items => some items
  | _ => none

def bool? : Tree → Option Bool
  | .bool value => some value
  | _ => none

def element? : Tree → Option Element
  | .element e => some e
  | _ => none

end Tree

namespace Json

/-- A position is a whole number of 32 bits. -/
def position? : Json → Option UInt32
  | .number (.int value) =>
      if 0 ≤ value ∧ value < UInt32.size then some value.toNat.toUInt32 else none
  | _ => none

/-- Reads a span off its two ends. -/
def spanOf? (start stop : Json) : Option Span := do
  return ⟨← start.position?, ← stop.position?⟩

/-- Reads a span off the members of its object. -/
def span? (members : List (String × Json)) : Option Span := do
  spanOf? (← member? "start" members) (← member? "end" members)

/-- The kind that an object names. -/
def kind? (members : List (String × Json)) : Option String :=
  match member? "type" members with
  | some (.string kind) => some kind
  | _ => none

end Json

namespace OpeningElement

/-- Reads an opening tag off the fields of its object. -/
def ofFields? (fields : List (String × Tree)) : Option Element := do
  let tag ← fields.lookup "name"
  let span ← (fields.lookup "span").bind Tree.span?
  let attributes ← (fields.lookup "attributes").bind Tree.items?
  let selfClosing ← (fields.lookup "selfClosing").bind Tree.bool?
  let typeArguments ← fields.lookup "typeArguments"
  return { tag, span, attributes, selfClosing, typeArguments }

/-- The fields of an opening tag's object, in visiting order. -/
def fields (e : Element) : List (String × Tree) :=
  [("name", e.tag), ("span", .span e.span), ("attributes", .list e.attributes),
    ("selfClosing", .bool e.selfClosing), ("typeArguments", e.typeArguments)]

@[simp] theorem ofFields?_fields (e : Element) : ofFields? e.fields = some e := rfl

end OpeningElement

/-- Takes the fields of a shape from what was found in an object, each in its turn. -/
def Field.pick (fields : List Field) (found : List (String × Tree)) : List (String × Tree) :=
  fields.map fun field => (field.name, (Json.member? field.name found).getD field.absent)

/-- What an object leaves out or adds does not change which fields are picked. -/
@[simp] theorem Field.map_fst_pick (fields : List Field) (found : List (String × Tree)) :
    (Field.pick fields found).map Prod.fst = fields.map Field.name := by
  simp [Field.pick]

/-- The fields of a shape, out of those found in an object. -/
def Shape.arrange (shape : Shape) (found : List (String × Tree)) : List (String × Tree) :=
  match shape.fields? with
  | some fields => Field.pick fields found
  | none => found

/-- The tree of a node. It fails only if the fields of an opening tag do not hold
what such a tag has. -/
def Tree.ofNode? (kind : String) (fields : List (String × Tree)) : Option Tree :=
  if h : kind = elementKind then (OpeningElement.ofFields? fields).map .element
  else some (.node ⟨kind, h⟩ fields)

/-- The tree of an object that has the shape. -/
def Shape.tree? (shape : Shape) (found : List (String × Tree)) : Option Tree :=
  match shape.kind? with
  | some kind => Tree.ofNode? kind (shape.arrange found)
  | none => some (.record (shape.arrange found))

mutual

/-- Reads what stands in a slot. A list is one of items where the slot calls for
items, and one of fields where it calls for a shape. -/
def Tree.ofJson? (slot : Slot) : Json → Option Tree
  | .null => some .null
  | .bool value => some (.bool value)
  | .number value => some (slot.settle (.number value))
  | .string value => some (slot.settle (.text value))
  | .array items =>
      match slot with
      | .list item => return .list (← Tree.ofItems? item items)
      | .only shape => do
          shape.tree? (← Tree.ofPositions? (← shape.fields?) items)
      | .span =>
          match items with
          | [start, stop] => (Json.spanOf? start stop).map .span
          | _ => none
      | .free | .bigInteger => return slot.settle (.list (← Tree.ofItems? .free items))
      | _ => none
  | .object members =>
      match slot with
      | .span => (Json.span? members).map .span
      | .keyword =>
          match members with
          | [(word, _)] => some (.text word)
          | _ => none
      | _ =>
          match slot.shape? (Json.kind? members) with
          | some shape => do shape.tree? (← Tree.ofMembers? shape.fields? members)
          | none => return .record (← Tree.ofMembers? none members)
termination_by structural json => json

def Tree.ofItems? (slot : Slot) : List Json → Option (List Tree)
  | [] => some []
  | item :: rest => return (← Tree.ofJson? slot item) :: (← Tree.ofItems? slot rest)
termination_by structural items => items

/-- Reads fields that are given by their positions. The last ones may be left out. -/
def Tree.ofPositions? : List Field → List Json → Option (List (String × Tree))
  | _, [] => some []
  | [], _ :: _ => none
  | field :: fields, item :: rest =>
      return (field.name, ← Tree.ofJson? field.slot item) :: (← Tree.ofPositions? fields rest)
termination_by structural _ items => items

/-- Reads the members of an object that are fields, and passes over the others. -/
def Tree.ofMembers? (fields? : Option (List Field)) :
    List (String × Json) → Option (List (String × Tree))
  | [] => some []
  | member :: rest =>
      match Field.slot? fields? member.1 with
      | some slot =>
          return (← Tree.ofMember? slot member) :: (← Tree.ofMembers? fields? rest)
      | none => Tree.ofMembers? fields? rest
termination_by structural members => members

def Tree.ofMember? (slot : Slot) : String × Json → Option (String × Tree)
  | (name, value) => return (name, ← Tree.ofJson? slot value)
termination_by structural member => member

end

/-- Where one argument stands, a statement gives its expression and no more. -/
example : Tree.ofJson? (.only .argument)
    (.object [("type", .string "ExpressionStatement"), ("expression", .bool true)]) =
    some (.record [("spread", .null), ("expression", .bool true)]) := rfl

/-- A span in the place of a closing tag gives the tag its span; a pair of numbers
will do. -/
example : Tree.ofJson? (.node "JSXClosingFragment") (.array [.array [.number (.int 3),
    .number (.int 4)]]) =
    some (.node { name := "JSXClosingFragment" } [("span", .span ⟨3, 4⟩)]) := rfl

/-- Reads an opening tag off its object. -/
def OpeningElement.ofJson? (json : Json) : Option Element :=
  (Tree.ofJson? (.node elementKind) json).bind Tree.element?

namespace ProgramForm

/-- The kind that a program goes by in its object. -/
def name : ProgramForm → String
  | .module => "Module"
  | .script => "Script"

def ofName? : String → Option ProgramForm
  | "Module" => some .module
  | "Script" => some .script
  | _ => none

@[simp] theorem ofName?_name (form : ProgramForm) : ofName? form.name = some form := by
  cases form <;> rfl

/-- The shape of a program's object. -/
def shape (form : ProgramForm) : Shape :=
  .node form.name

end ProgramForm

namespace Program

/-- Reads a program off the fields of its object. -/
def ofFields? (form : ProgramForm) (fields : List (String × Tree)) : Option Program := do
  let span ← (fields.lookup "span").bind Tree.span?
  let body ← (fields.lookup "body").bind Tree.items?
  let interpreter ← fields.lookup "interpreter"
  return { form, span, body, interpreter }

/-- Reads a program off its object. -/
def ofJson? : Json → Option Program
  | .object members => do
      let form ← (Json.kind? members).bind ProgramForm.ofName?
      let found ← Tree.ofMembers? form.shape.fields? members
      ofFields? form (form.shape.arrange found)
  | _ => none

/-- The fields of a program's object. -/
def fields (program : Program) : List (String × Tree) :=
  [("span", .span program.span), ("body", .list program.body),
    ("interpreter", program.interpreter)]

@[simp] theorem ofFields?_fields (program : Program) :
    ofFields? program.form program.fields = some program := rfl

end Program

end JsxProvenance
