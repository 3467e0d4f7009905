import JsxProvenance.Number.Rounding

/-!
Finite numbers of the binary64 format, without their sign. Each of them is a
whole number of units of the smallest positive one, `2 ^ -1074`, and that whole
number has at most 53 significant bits, so arithmetic on them is exact arithmetic
on natural numbers that is rounded once at the end.
-/

namespace JsxProvenance

/-- A number of the format, counted in units of `2 ^ -1074`. -/
structure Binary64 where
  units : Scaled
deriving DecidableEq, Repr

namespace Binary64

/-- How many units make 1. -/
def one : Nat :=
  Nat.pow 2 1074

/-- Rounds `num / den` units. -/
def ofUnits (num den : Nat) : Binary64 :=
  ⟨Scaled.nearest num den⟩

def ofNat (n : Nat) : Binary64 :=
  ofUnits (n * one) 1

def zero : Binary64 :=
  ⟨⟨0, 0⟩⟩

/-- Whether the number is within the range of the format. Rounding may lead out
of it, and a number beyond it stands for infinity. -/
def isFinite (x : Binary64) : Bool :=
  x.units.exponent ≤ 2045

def mul (x y : Binary64) : Binary64 :=
  ofUnits (x.units.toNat * y.units.toNat) one

def div (x y : Binary64) : Binary64 :=
  ofUnits (x.units.toNat * one) y.units.toNat

/-- The number nearest to a power of ten. -/
def powerOfTen (n : Nat) : Binary64 :=
  ofNat (Nat.pow 10 n)

/-- The largest power of ten in the range of the format is `10 ^ 308`. -/
def largestPower : Nat :=
  308

/-- Divides by a power of ten. The powers beyond the range are divided out in
several steps, each of which rounds, until nothing is left of the number. -/
@[semireducible] def scaleDown (x : Binary64) (places : Nat) : Binary64 :=
  if places ≤ largestPower then x.div (powerOfTen places)
  else if x = zero then zero
  else scaleDown (x.div (powerOfTen largestPower)) (places - largestPower)
termination_by places
decreasing_by simp only [largestPower] at *; omega

/-- Multiplies by a power of ten, unless the product is out of range. -/
def scaleUp? (x : Binary64) (places : Nat) : Option Binary64 :=
  if places ≤ largestPower then
    let product := x.mul (powerOfTen places)
    if product.isFinite then some product else none
  else if x = zero then some zero
  else none

end Binary64

end JsxProvenance
