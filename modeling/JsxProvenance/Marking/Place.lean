import JsxProvenance.Marking.Attribute
import JsxProvenance.Tree.Object

/-!
Reading a mark. The file name and the line number stand in the object literal that
is the value of the attribute, each under its own key, and are found by that key
wherever it stands.
-/

namespace JsxProvenance

namespace Tree

def text? : Tree → Option String
  | .text value => some value
  | _ => none

def number? : Tree → Option Number
  | .number value => some value
  | _ => none

/-- A field of a node. -/
def field? (name : String) : Tree → Option Tree
  | .node _ fields => fields.lookup name
  | _ => none

/-- The literal that an object literal holds under a key. -/
def property? (key : String) (literal : Tree) : Option Tree := do
  let properties ← (← literal.field? "properties").items?
  let property ← properties.find? fun property =>
    ((property.field? "key").bind (field? "value")).bind text? == some key
  property.field? "value"

/-- The file name and the line number that an attribute gives. -/
def place? (mark : Tree) : Option (String × Number) := do
  let literal ← (← mark.field? "value").field? "expression"
  let fileName ← (← (← literal.property? "fileName").field? "value").text?
  let line ← (← (← literal.property? "lineNumber").field? "value").number?
  return (fileName, line)

end Tree

/-- The line number that the last attribute of an element gives, if it gives a place. -/
def OpeningElement.lineNumber? (e : Element) : Option Number :=
  (e.attributes.getLast?.bind Tree.place?).map Prod.snd

/-- A mark gives the name it was made with, and the line, as far as binary64 numbers
can hold it. -/
@[simp] theorem Marking.place?_sourceAttribute (fileName : String) (line : Nat) :
    (Marking.sourceAttribute fileName line).place? =
      some (fileName, .int (Scaled.nearest line 1).toNat) := rfl

end JsxProvenance
