import JsxProvenance.Json.Document

/-!
The options that a host hands over, as a JSON text. Only one is known: the name to
write into attributes. A host that has no options to give sends nothing, blanks or
`null`, and all three give the default; other members of an object are ignored.

Blanks are here the characters with the Unicode property White_Space. They are more than
the four that a JSON text may have between its parts.
-/

namespace JsxProvenance

/-- The ranges of code points with the property White_Space, first and last of each. -/
def whiteSpaceRanges : List (Nat × Nat) :=
  [(0x0009, 0x000D), (0x0020, 0x0020), (0x0085, 0x0085), (0x00A0, 0x00A0), (0x1680, 0x1680),
    (0x2000, 0x200A), (0x2028, 0x2029), (0x202F, 0x202F), (0x205F, 0x205F), (0x3000, 0x3000)]

def isWhiteSpace (c : Char) : Bool :=
  whiteSpaceRanges.any fun (first, last) => first ≤ c.toNat && c.toNat ≤ last

/-- All 25 characters of the property are in the table, counted with the ends of
each range. -/
example : (whiteSpaceRanges.map fun (first, last) => last + 1 - first).sum = 25 := by decide

structure Options where
  fileName : Option String := none
deriving DecidableEq, Repr

instance : Inhabited Options := ⟨{}⟩

/-- The kinds of JSON values that cannot hold options. -/
inductive NonObject where
  | boolean
  | number
  | string
  | array
deriving DecidableEq, Repr

def NonObject.phrase : NonObject → String
  | .boolean => "a boolean"
  | .number => "a number"
  | .string => "a string"
  | .array => "an array"

/-- Why a text gives no options. -/
inductive OptionsError where
  /-- The text is not JSON. -/
  | malformed (flaw : Flaw) (place : Place)
  /-- The file name is neither a string nor `null`. -/
  | mistyped (found : Json)
  /-- The text is JSON, but of a value without members. -/
  | notAnObject (found : NonObject)
deriving Repr

/-- A value as it is named in messages about its type. -/
def Json.phrase : Json → String
  | .null => "null"
  | .bool true => "boolean `true`"
  | .bool false => "boolean `false`"
  | .number (.int value) => "integer `" ++ (Number.int value).text ++ "`"
  | .number (.real negative magnitude) =>
      "floating point `" ++ (Number.real negative magnitude).text ++ "`"
  | .string _ => "string"
  | .array _ => "sequence"
  | .object _ => "map"

namespace OptionsError

def message : OptionsError → String
  | .malformed flaw place =>
      "plugin config is not valid JSON: " ++ flaw.text ++ " at line " ++ toString place.line ++
        " column " ++ toString place.column
  | .mistyped found =>
      "plugin config is not valid JSON: invalid type: " ++ found.phrase ++ ", expected a string"
  | .notAnObject found => "plugin config must be a JSON object, got " ++ found.phrase

end OptionsError

namespace Options

/-- The member that names the file. -/
def nameKey : String := "fileName"

/-- The options that a JSON value holds. -/
def ofJson : Json → Except OptionsError Options
  | .null => .ok {}
  | .object members =>
      match Json.member? nameKey members with
      | none | some .null => .ok {}
      | some (.string name) => .ok { fileName := some name }
      | some found => .error (.mistyped found)
  | .bool _ => .error (.notAnObject .boolean)
  | .number _ => .error (.notAnObject .number)
  | .string _ => .error (.notAnObject .string)
  | .array _ => .error (.notAnObject .array)

/-- The options that a text holds. -/
def read (text : String) : Except OptionsError Options :=
  if text.toList.all isWhiteSpace then .ok {}
  else
    match Json.parse text.toList with
    | .error fault => .error (.malformed fault.flaw (fault.place text.toList))
    | .ok value => ofJson value

/-- Whether nothing was chosen. -/
def isDefault (options : Options) : Bool :=
  options == {}

end Options

end JsxProvenance
