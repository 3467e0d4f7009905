import JsxProvenance.Json.Document

/-!
The grammar of JSON texts, as relations between values and the texts that spell
them. Nothing here reads a text: a relation says of a whole text that it spells a
value, and how it is put together from the texts of the parts. Values are spelled
at a depth, the number of brackets that may be open at once.
-/

namespace JsxProvenance

/-- A text of blanks only. -/
def Blanks (s : List Char) : Prop :=
  ∀ c ∈ s, isBlank c = true

namespace Quoted

/-- A character that may stand for itself in a string. -/
def Plain (c : Char) : Prop :=
  c ≠ '"' ∧ c ≠ '\\' ∧ 0x20 ≤ c.toNat

/-- The letters of the escapes of two characters, each with the character it stands for. -/
def escapeLetters : List (Char × Char) :=
  [('"', '"'), ('\\', '\\'), ('/', '/'), ('b', '\x08'), ('f', '\x0c'), ('n', '\n'),
    ('r', '\r'), ('t', '\t')]

/-- A hexadecimal digit of either case, with its value. -/
def HexDigit (value : Nat) (c : Char) : Prop :=
  value < 16 ∧ (c = Nat.digitChar value ∨ c = (Nat.digitChar value).toUpper)

instance (value : Nat) (c : Char) : Decidable (HexDigit value c) :=
  inferInstanceAs (Decidable (_ ∧ _))

/-- Four hexadecimal digits, with the number they stand for. -/
inductive UnitText : Nat → List Char → Prop
  | mk {a b c d : Nat} {p q r s : Char} (hp : HexDigit a p) (hq : HexDigit b q)
      (hr : HexDigit c r) (hs : HexDigit d s) :
      UnitText (((a * 16 + b) * 16 + c) * 16 + d) [p, q, r, s]

/-- The ways to spell one character of a string. The code of a character is never a
surrogate, so one code unit spells it only if it is below `0x10000`; above that it takes a
pair of surrogates. -/
inductive Spells : Char → List Char → Prop
  | plain {c : Char} (h : Plain c) : Spells c [c]
  | short {c letter : Char} (h : (letter, c) ∈ escapeLetters) : Spells c ['\\', letter]
  | unit {c : Char} {digits : List Char} (h : UnitText c.toNat digits) :
      Spells c ('\\' :: 'u' :: digits)
  | pair {c : Char} {high low : Nat} {digits digits' : List Char} (h : UnitText high digits)
      (h' : UnitText low digits') (hhigh : IsHighSurrogate high) (hlow : IsLowSurrogate low)
      (hc : c.toNat = 0x10000 + (high - 0xD800) * 0x400 + (low - 0xDC00)) :
      Spells c ('\\' :: 'u' :: digits ++ '\\' :: 'u' :: digits')

/-- The text between the quotes of a string, with the characters it spells. -/
inductive Body : List Char → List Char → Prop
  | nil : Body [] []
  | cons {c : Char} {cs s t : List Char} (h : Spells c s) (hrest : Body cs t) :
      Body (c :: cs) (s ++ t)

/-- A whole string with its quotes. -/
inductive Literal : String → List Char → Prop
  | quoted {cs s : List Char} (h : Body cs s) :
      Literal (String.ofList cs) ('"' :: s ++ ['"'])

/-- Characters written the shortest way that is always allowed: quotes and
backslashes behind a backslash, control characters as code units, and all others
plainly. -/
def escapeChar (c : Char) : List Char :=
  if c = '"' then ['\\', '"']
  else if c = '\\' then ['\\', '\\']
  else if c.toNat < 0x20 then
    ['\\', 'u', '0', '0', Nat.digitChar (c.toNat / 16), Nat.digitChar (c.toNat % 16)]
  else [c]

/-- A string written with the escapes of `escapeChar`. -/
def write (value : String) : List Char :=
  '"' :: value.toList.flatMap escapeChar ++ ['"']

end Quoted

namespace Numeral

/-- One digit or more. -/
def Digits (s : List Char) : Prop :=
  s ≠ [] ∧ ∀ c ∈ s, c.isDigit = true

/-- Digits before a point: no zero in front of others. -/
def WholeDigits (s : List Char) : Prop :=
  Digits s ∧ (s.head? = some '0' → s = ['0'])

/-- The text of a fraction, if there is one. -/
inductive FractionText : List Char → List Char → Prop
  | absent : FractionText [] []
  | present {digits : List Char} (h : Digits digits) : FractionText digits ('.' :: digits)

/-- The text of an exponent, if there is one. -/
inductive ExponentText : Option Exponent → List Char → Prop
  | absent : ExponentText none []
  | unsigned {mark : Char} {digits : List Char} (hmark : mark = 'e' ∨ mark = 'E')
      (h : Digits digits) : ExponentText (some ⟨false, digits⟩) (mark :: digits)
  | positive {mark : Char} {digits : List Char} (hmark : mark = 'e' ∨ mark = 'E')
      (h : Digits digits) : ExponentText (some ⟨false, digits⟩) (mark :: '+' :: digits)
  | negative {mark : Char} {digits : List Char} (hmark : mark = 'e' ∨ mark = 'E')
      (h : Digits digits) : ExponentText (some ⟨true, digits⟩) (mark :: '-' :: digits)

/-- The text of a numeral, with its parts. -/
inductive Text : Numeral → List Char → Prop
  | mk {negative : Bool} {whole fraction fractionText exponentText : List Char}
      {exponent : Option Exponent} (hwhole : WholeDigits whole)
      (hfraction : FractionText fraction fractionText)
      (hexponent : ExponentText exponent exponentText) :
      Text ⟨negative, whole, fraction, exponent⟩
        ((if negative then ['-'] else []) ++ whole ++ fractionText ++ exponentText)

end Numeral

namespace Json

/-- How the parts of a text that have no brackets are spelled. -/
structure Dialect where
  number : Number → List Char → Prop
  string : String → List Char → Prop

/-- All spellings that a JSON text may use. -/
def Dialect.any : Dialect where
  number value s := ∃ numeral : Numeral, numeral.Text s ∧ numeral.value = .ok value
  string := Quoted.Literal

/-- Integers of at most 18 digits. -/
def Short (n : Int) : Prop :=
  n.natAbs < Nat.pow 10 18

/-- One spelling for each string and each short integer. -/
def Dialect.canonical : Dialect where
  number value s := ∃ n : Int, value = .int n ∧ Short n ∧ s = (toString n).toList
  string value s := s = Quoted.write value

/-- The values without brackets. -/
inductive Scalar (dialect : Dialect) : Json → List Char → Prop
  | null : Scalar dialect .null ['n', 'u', 'l', 'l']
  | true : Scalar dialect (.bool true) ['t', 'r', 'u', 'e']
  | false : Scalar dialect (.bool false) ['f', 'a', 'l', 's', 'e']
  | number {value : Number} {s : List Char} (h : dialect.number value s) :
      Scalar dialect (.number value) s
  | string {value : String} {s : List Char} (h : dialect.string value s) :
      Scalar dialect (.string value) s

/-- One item or more, with commas between them and blanks around each. -/
inductive Series {α : Type} (item : α → List Char → Prop) : List α → List Char → Prop
  | last {a : α} {before s after : List Char} (hbefore : Blanks before) (h : item a s)
      (hafter : Blanks after) : Series item [a] (before ++ s ++ after)
  | cons {a : α} {as : List α} {before s after t : List Char} (hbefore : Blanks before)
      (h : item a s) (hafter : Blanks after) (hrest : Series item as t) :
      Series item (a :: as) (before ++ s ++ after ++ ',' :: t)

/-- A key and a value with a colon between them. -/
inductive Member (dialect : Dialect) (value : Json → List Char → Prop) :
    String × Json → List Char → Prop
  | mk {key : String} {v : Json} {k before after s : List Char} (hkey : dialect.string key k)
      (hbefore : Blanks before) (hafter : Blanks after) (h : value v s) :
      Member dialect value (key, v) (k ++ before ++ ':' :: after ++ s)

/-- The values with brackets, over those that may stand inside. -/
inductive Container (dialect : Dialect) (value : Json → List Char → Prop) :
    Json → List Char → Prop
  | emptyArray {s : List Char} (h : Blanks s) :
      Container dialect value (.array []) ('[' :: s ++ [']'])
  | array {items : List Json} {s : List Char} (h : Series value items s) :
      Container dialect value (.array items) ('[' :: s ++ [']'])
  | emptyObject {s : List Char} (h : Blanks s) :
      Container dialect value (.object []) ('\x7b' :: s ++ ['\x7d'])
  | object {members : List (String × Json)} {s : List Char}
      (h : Series (Member dialect value) members s) :
      Container dialect value (.object members) ('\x7b' :: s ++ ['\x7d'])

/-- The text of a value with at most `depth` brackets open at once. -/
def Spelled (dialect : Dialect) : (depth : Nat) → Json → List Char → Prop
  | 0, v, s => Scalar dialect v s
  | depth + 1, v, s => Scalar dialect v s ∨ Container dialect (Spelled dialect depth) v s

/-- The text of a document: a value with blanks around it. -/
inductive Document (dialect : Dialect) (v : Json) : List Char → Prop
  | mk {before s after : List Char} (hbefore : Blanks before)
      (h : Spelled dialect deepest v s) (hafter : Blanks after) :
      Document dialect v (before ++ s ++ after)

end Json

end JsxProvenance
