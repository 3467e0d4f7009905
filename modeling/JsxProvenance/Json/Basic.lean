import JsxProvenance.Number.Basic

/-!
JSON values, and what can be wrong with a JSON text. An object keeps its members as they
were written, repeated keys included; where a key counts, its last member is the one that
holds.

A fault is found somewhere inside the text, and carries the number of bytes that lie behind
it. Counted from the end, the place of a fault does not depend on what was read before it;
the line and column are worked out once, from the whole text.
-/

namespace JsxProvenance

inductive Json where
  | null
  | bool (value : Bool)
  | number (value : Number)
  | string (value : String)
  | array (items : List Json)
  | object (members : List (String × Json))
deriving Repr

instance : Inhabited Json := ⟨.null⟩

/-- What stands under a key of an object: it is that of the last member with the
key. -/
def Json.member? {α : Type} (key : String) (members : List (String × α)) : Option α :=
  members.reverse.lookup key

/-- The reasons why a text is not JSON. -/
inductive Flaw where
  | endInValue
  | endInList
  | endInObject
  | endInString
  | expectedWord
  | expectedValue
  | expectedColon
  | expectedListSeparator
  | expectedObjectSeparator
  | keyNotString
  | trailingComma
  | trailingCharacters
  | tooDeep
  | controlCharacter
  | invalidEscape
  | loneSurrogate
  | unfinishedPair
  | invalidNumber
  | numberOutOfRange
deriving DecidableEq, Repr

def Flaw.text : Flaw → String
  | .endInValue => "EOF while parsing a value"
  | .endInList => "EOF while parsing a list"
  | .endInObject => "EOF while parsing an object"
  | .endInString => "EOF while parsing a string"
  | .expectedWord => "expected ident"
  | .expectedValue => "expected value"
  | .expectedColon => "expected `:`"
  | .expectedListSeparator => "expected `,` or `]`"
  | .expectedObjectSeparator => "expected `,` or `\x7d`"
  | .keyNotString => "key must be a string"
  | .trailingComma => "trailing comma"
  | .trailingCharacters => "trailing characters"
  | .tooDeep => "recursion limit exceeded"
  | .controlCharacter => "control character (\\u0000-\\u001F) found while parsing a string"
  | .invalidEscape => "invalid escape"
  | .loneSurrogate => "lone leading surrogate in hex escape"
  | .unfinishedPair => "unexpected end of hex escape"
  | .invalidNumber => "invalid number"
  | .numberOutOfRange => "number out of range"

/-- The length of a text in UTF-8. -/
def byteLength : List Char → Nat
  | [] => 0
  | c :: rest => c.utf8Size + byteLength rest

@[simp] theorem byteLength_append (s t : List Char) :
    byteLength (s ++ t) = byteLength s + byteLength t := by
  induction s with
  | nil => simp [byteLength]
  | cons c rest ih => simp [byteLength, ih, Nat.add_assoc]

/-- A flaw, with the number of bytes of the text that lie behind it. -/
structure Fault where
  flaw : Flaw
  left : Nat
deriving DecidableEq, Repr

namespace Fault

/-- Blames the first byte of what is left of a text. At the end of the text there
is no such byte, and the end itself is blamed. -/
def on (flaw : Flaw) (rest : List Char) : Fault :=
  ⟨flaw, byteLength rest - 1⟩

/-- Blames what was read last, with `rest` behind it. -/
def before (flaw : Flaw) (rest : List Char) : Fault :=
  ⟨flaw, byteLength rest⟩

/-- What was done without a fault was done so at each of its steps. -/
theorem exists_of_bind {α β : Type} {action : Except Fault α} {next : α → Except Fault β} {b : β}
    (h : action >>= next = .ok b) : ∃ a, action = .ok a ∧ next a = .ok b := by
  cases action with
  | error fault => cases h
  | ok a => exact ⟨a, rfl, h⟩

end Fault

/-- A place in a text: lines count from 1, and columns are the bytes of the line
up to the place. -/
structure Place where
  line : Nat
  column : Nat
deriving DecidableEq, Repr

namespace Place

def start : Place := ⟨1, 0⟩

/-- The place behind one more character. -/
def advance (place : Place) (c : Char) : Place :=
  if c = '\n' then ⟨place.line + 1, 0⟩ else ⟨place.line, place.column + c.utf8Size⟩

/-- The place behind the first bytes of a text that begins at `place`. The last
of them may be in the middle of a character. -/
def after (place : Place) : List Char → Nat → Place
  | [], _ => place
  | c :: rest, bytes =>
      if c.utf8Size ≤ bytes then (place.advance c).after rest (bytes - c.utf8Size)
      else ⟨place.line, place.column + bytes⟩

end Place

/-- Where in a text a fault lies. -/
def Fault.place (text : List Char) (fault : Fault) : Place :=
  Place.start.after text (byteLength text - fault.left)

example : (Fault.on .expectedValue ['?', ' ']).place ['[', '\n', ' ', '?', ' '] = ⟨2, 2⟩ := by
  decide

end JsxProvenance
