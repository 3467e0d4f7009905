import JsxProvenance.Marking.Attribute
import JsxProvenance.Tree.Traversal

/-!
Taking marks off again. One way goes by position: the last attribute of every
element that has one is its mark. The other goes by name, and takes the last
attribute of any element if it is called `__source`, whoever wrote it.
-/

namespace JsxProvenance

/-- The name of an attribute, if it is an attribute with a plain name. -/
def Tree.attributeName? : Tree → Option String
  | .node kind fields =>
      if kind.name = "JSXAttribute" then
        match fields.lookup "name" with
        | some (.node nameKind nameFields) =>
            if nameKind.name = "Identifier" then
              match nameFields.lookup "value" with
              | some (.text name) => some name
              | _ => none
            else none
        | _ => none
      else none
  | _ => none

namespace OpeningElement

/-- Takes the last attribute off an element that has a position. -/
def eraseByPosition (e : Element) : Element :=
  if e.span.isDummy then e else { e with attributes := e.attributes.dropLast }

/-- Whether the last attribute of an element is called `__source`. -/
def endsInSource (e : Element) : Bool :=
  (e.attributes.getLast?.bind Tree.attributeName?) == some sourceName

/-- Takes the last attribute off an element if it is called `__source`. -/
def eraseByName (e : Element) : Element :=
  if e.endsInSource then { e with attributes := e.attributes.dropLast } else e

end OpeningElement

@[simp] theorem Marking.attributeName?_sourceAttribute (fileName : String) (line : Nat) :
    (Marking.sourceAttribute fileName line).attributeName? = some sourceName := rfl

end JsxProvenance
