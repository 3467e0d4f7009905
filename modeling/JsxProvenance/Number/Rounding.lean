/-!
Rounding to 53 significant bits. A quotient is replaced by the nearest number
`significand * 2 ^ exponent` whose significand fits in 53 bits; of two that are
equally near, the one with the even significand is taken.
-/

namespace JsxProvenance

/-- The natural number nearest to `num / den`, an exact half going to the even
neighbour. -/
def roundDiv (num den : Nat) : Nat :=
  if 2 * (num % den) < den ∨ (2 * (num % den) = den ∧ num / den % 2 = 0) then num / den
  else num / den + 1

/-- A natural number written as a significand, scaled by a power of two. -/
structure Scaled where
  significand : Nat
  exponent : Nat
deriving DecidableEq, Repr

namespace Scaled

def toNat (x : Scaled) : Nat :=
  x.significand * Nat.pow 2 x.exponent

/-- The least significand that has all of its 53 bits. -/
def leastLong : Nat :=
  Nat.pow 2 52

/-- The exponent that leaves 53 bits of `n` in front of it, or 0 if `n` is
shorter than that. -/
def exponentFor (n : Nat) : Nat :=
  n.log2 - 52

/-- The number of 53 significant bits that is nearest to `num / den`. If the
significand is carried to a 54th bit, then it is a power of two, and one of its
zeros moves into the exponent. -/
def nearest (num den : Nat) : Scaled :=
  let exponent := exponentFor (num / den)
  let significand := roundDiv num (den * Nat.pow 2 exponent)
  if significand = 2 * leastLong then ⟨leastLong, exponent + 1⟩ else ⟨significand, exponent⟩

example : (nearest 9007199254740993 1).toNat = 9007199254740992 := by decide

example : (nearest 9007199254740995 1).toNat = 9007199254740996 := by decide

example : nearest (2 ^ 54 - 1) 1 = ⟨leastLong, 2⟩ := by decide

end Scaled

end JsxProvenance
