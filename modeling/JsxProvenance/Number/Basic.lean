import JsxProvenance.Number.Layout

/-!
Numbers as they are written in data: integers, and numbers of the binary64
format. A number that came as an integer stays one as long as nothing asks for
the format; `toBinary64` does, and rounds.
-/

namespace JsxProvenance

/-- A number: an integer if it was written as one and fits in 64 bits, with or
without sign, and a binary64 number otherwise. The sign of a binary64 number is
kept apart, since zero has two. -/
inductive Number where
  | int (value : Int)
  | real (negative : Bool) (magnitude : Binary64)
deriving DecidableEq, Repr

/-- The natural number that a binary64 number is, if it is one. -/
def Binary64.whole? (x : Binary64) : Option Nat :=
  if x.units.toNat % one = 0 then some (x.units.toNat / one) else none

namespace Number

/-- The text of a number in a message. -/
def text : Number → String
  | .int value => toString value
  | .real false magnitude => magnitude.text
  | .real true magnitude => "-" ++ magnitude.text

/-- A natural number with a sign. -/
def signed (negative : Bool) (n : Nat) : Int :=
  if negative then -n else n

/-- The binary64 number nearest to a number. Whole numbers are given as integers,
and so zero loses its sign. -/
def toBinary64 : Number → Number
  | .int value => .int (signed (value < 0) (Scaled.nearest value.natAbs 1).toNat)
  | .real negative magnitude =>
      match magnitude.whole? with
      | some n => .int (signed negative n)
      | none => .real negative magnitude

example : toBinary64 (.int (-9007199254740993)) = .int (-9007199254740992) := by decide

example : toBinary64 (.real true .zero) = .int 0 := by decide +kernel

example : toBinary64 (.real false ((Binary64.ofNat 10000).scaleDown 1)) = .int 1000 := by
  decide +kernel

end Number

end JsxProvenance
