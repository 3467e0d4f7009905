import JsxProvenance.Log
import JsxProvenance.Number.Rounding

/-!
The attribute that marks an element, `__source={{ fileName, lineNumber }}`. None
of its parts was read from a file, so all of them have the dummy span.
-/

namespace JsxProvenance

namespace Marking

/-- A node that was not read from a file. -/
def made (kind : NodeKind) (fields : List (String × Tree)) : Tree :=
  .node kind (("span", .span .dummy) :: fields)

def identifier (name : String) : Tree :=
  made { name := "Identifier" } [("value", .text name)]

def stringLiteral (value : String) : Tree :=
  made { name := "StringLiteral" } [("value", .text value), ("raw", .null)]

/-- The literal of a natural number. Literals hold binary64 numbers, so one that
has too many bits is replaced by the nearest number that has not. -/
def numberLiteral (value : Nat) : Tree :=
  made { name := "NumericLiteral" }
    [("value", .number (.int (Scaled.nearest value 1).toNat)), ("raw", .null)]

def property (key : String) (value : Tree) : Tree :=
  .node { name := "KeyValueProperty" } [("key", identifier key), ("value", value)]

/-- The attribute that says in which file and line an element was written. -/
def sourceAttribute (fileName : String) (line : Nat) : Tree :=
  made { name := "JSXAttribute" } [
    ("name", identifier sourceName),
    ("value", made { name := "JSXExpressionContainer" } [
      ("expression", made .object [
        ("properties", .list [
          property "fileName" (stringLiteral fileName),
          property "lineNumber" (numberLiteral line)])])])]

end Marking

end JsxProvenance
