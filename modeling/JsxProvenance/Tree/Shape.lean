import JsxProvenance.Tree.Basic

/-!
What the objects of a program are read as. Outside this library a piece of syntax
is an object with named fields, and most objects name a kind. An object may list
its fields in any order, leave out those that are empty, and carry others that
mean nothing. Its shape settles all of this: which fields there are, and in which
order they are visited.

The slot that an object stands in decides on its shape. In most slots syntax is of
the kind it names. Where only one kind can stand, the object is of that kind,
whatever it names: the handler of a `try` statement is a catch clause. It may then
also be a list of its fields, in their order and without their names.
-/

namespace JsxProvenance

/-- What an object can be read as. -/
inductive Shape where
  /-- A node of the kind. -/
  | node (kind : String)
  /-- An identifier that binds a name, and may give it a type. -/
  | binding
  /-- An identifier that has no meaning of its own, as the name of a property. -/
  | bareName
  /-- A template that is a type, with types in its gaps. -/
  | templateType
  /-- An item of an argument list or of an array literal. -/
  | argument
  /-- The parameters and the body of a method. -/
  | function
deriving DecidableEq, Repr

/-- The kind that a shape goes by in an object. -/
def Shape.kind? : Shape → Option String
  | .node kind => some kind
  | .binding | .bareName => some "Identifier"
  | .templateType => some "TemplateLiteral"
  | .argument | .function => none

/-- What can stand in a field. -/
inductive Slot where
  /-- Any value, and syntax of any kind. -/
  | free
  /-- What is assigned to: a name, a pattern, or an expression. -/
  | pattern
  /-- The name of a property or an attribute. -/
  | key
  /-- A literal that is used as a type. -/
  | typeLiteral
  /-- Nothing but the shape. -/
  | only (shape : Shape)
  /-- A list, and what can stand in it. -/
  | list (item : Slot)
  /-- A span, as an object or as a pair of positions. -/
  | span
  /-- A word out of a few, as a text or as the one key of an object. -/
  | keyword
  /-- The modifier of a mapped type: `true`, `+` or `-`. -/
  | modifier
  /-- The value of a numeric literal. -/
  | numeric
  /-- The value of a big integer literal. -/
  | bigInteger
deriving DecidableEq, Repr

namespace Slot

/-- A slot for nodes of one kind. -/
abbrev node (kind : String) : Slot :=
  .only (.node kind)

/-- The shape of an object that names a kind, or none. -/
def shape? : Slot → Option String → Option Shape
  | .only shape, _ => some shape
  | .pattern, some "Identifier" => some .binding
  | .key, some "Identifier" => some .bareName
  | .typeLiteral, some "TemplateLiteral" => some .templateType
  | _, some kind => some (.node kind)
  | _, none => none

example : (Slot.node "CatchClause").shape? (some "StaticBlock") = some (.node "CatchClause") := rfl

example : Slot.pattern.shape? (some "Identifier") = some .binding := rfl

end Slot

/-- A field of a shape. -/
structure Field where
  name : String
  slot : Slot
  /-- What the field holds if an object leaves it out. -/
  absent : Tree

namespace Field

def span : Field := ⟨"span", .span, .span .dummy⟩

/-- Where a token stands that need not be there. -/
def token (name : String) : Field := ⟨name, .span, .null⟩

/-- The scope that a name belongs to, by number. -/
def context : Field := ⟨"ctxt", .free, .number (.int 0)⟩

/-- When an import takes effect. -/
def phase : Field := ⟨"phase", .keyword, .text "evaluation"⟩

def flag (name : String) : Field := ⟨name, .free, .bool false⟩

def text (name : String) : Field := ⟨name, .free, .text ""⟩

/-- A value that need not be there, without syntax in it. -/
def leaf (name : String) : Field := ⟨name, .free, .null⟩

def keyword (name : String) : Field := ⟨name, .keyword, .null⟩

/-- One piece of syntax, or none. -/
def one (name : String) (slot : Slot) : Field := ⟨name, slot, .null⟩

/-- Any number of pieces of syntax. -/
def many (name : String) (slot : Slot) : Field := ⟨name, .list slot, .list []⟩

/-- The slot of a field. Where the fields are not known, everything but the kind is
a field. -/
def slot? (fields? : Option (List Field)) (name : String) : Option Slot :=
  match fields? with
  | some fields => (fields.find? (·.name == name)).map (·.slot)
  | none => if name = "type" then none else some .free

end Field

end JsxProvenance
