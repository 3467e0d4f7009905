/-!
Where the lines of a text start. A line break is a carriage return followed by
a line feed, taken together, or either of the two alone; no other character
breaks a line. A break at the very end of the text opens no further line, so a
text with no bytes has no lines at all.
-/

namespace JsxProvenance

namespace Lines

/-- The byte `b`, followed by `rest`, is the last byte of a line break. The
carriage return of a pair is not: the line feed after it ends that break. -/
def EndsBreak (b : UInt8) (rest : List UInt8) : Prop :=
  b = 10 ∨ (b = 13 ∧ rest.head? ≠ some 10)

instance (b : UInt8) (rest : List UInt8) : Decidable (EndsBreak b rest) :=
  inferInstanceAs (Decidable (_ ∨ _))

/-- The positions just past each line break of a text whose first byte is at
`pos`. -/
def breakEnds (pos : Nat) : List UInt8 → List Nat
  | [] => []
  | b :: rest =>
      if EndsBreak b rest then (pos + 1) :: breakEnds (pos + 1) rest
      else breakEnds (pos + 1) rest

/-- The positions at which the lines of a text start, if its first byte is at
`pos`. Each of them is the position of a byte of the text. -/
def starts (pos : Nat) (bytes : List UInt8) : List Nat :=
  let stop := pos + bytes.length
  (pos :: breakEnds pos bytes).filter (· < stop)

/-- A line break ends at an offset: the byte before it is the last of the break. -/
def BreakEndsAt (bytes : List UInt8) (offset : Nat) : Prop :=
  bytes[offset - 1]? = some 10 ∨
    (bytes[offset - 1]? = some 13 ∧ bytes[offset]? ≠ some 10)

instance (bytes : List UInt8) (offset : Nat) : Decidable (BreakEndsAt bytes offset) :=
  inferInstanceAs (Decidable (_ ∨ _))

/-- The line of an offset, counted without a list of starts: one more than the
breaks that end at or before it, those at the end of the text left out. -/
def lineOf (bytes : List UInt8) (offset : Nat) : Nat :=
  if bytes = [] then 0
  else
    1 + (List.range bytes.length).countP fun ending =>
      1 ≤ ending ∧ ending ≤ offset ∧ BreakEndsAt bytes ending

example : starts 1 [97, 13, 10, 98, 13, 99, 10] = [1, 4, 6] := by decide

example : starts 7 [] = [] := by decide

end Lines

end JsxProvenance
