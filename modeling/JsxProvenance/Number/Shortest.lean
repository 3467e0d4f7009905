import JsxProvenance.Number.Binary64

/-!
The shortest decimal that identifies a binary64 number. Every real number close
enough to a number of the format rounds to it; among these the decimals with the
fewest digits are those on the coarsest grid of multiples of a power of ten that
meets the interval at all. On that grid the number's two neighbours are enough to
look at: if any point of the grid lies in the interval, one of them does.
-/

namespace JsxProvenance

/-- The number `digits * 10 ^ exponent`. -/
structure Decimal where
  digits : Nat
  exponent : Int
deriving DecidableEq, Repr

namespace Binary64

/-- The number in quarters of the unit of its last bit. -/
def quarters (x : Binary64) : Nat :=
  4 * x.units.significand

/-- The lower end of the interval that rounds to the number, in the same
quarters. Just above a power of two the numbers below are twice as dense. -/
def lowEnd (x : Binary64) : Nat :=
  if x.units.significand = Scaled.leastLong ∧ 0 < x.units.exponent then x.quarters - 1
  else x.quarters - 2

/-- The upper end of the interval. -/
def highEnd (x : Binary64) : Nat :=
  x.quarters + 2

/-- Whether `num / den`, in quarters, rounds to the number. The ends of the
interval lie half way to a neighbour, so they go to the even significand. -/
def covers (x : Binary64) (num den : Nat) : Bool :=
  if x.units.significand % 2 = 0 then
    x.lowEnd * den ≤ num && num ≤ x.highEnd * den
  else
    x.lowEnd * den < num && num < x.highEnd * den

/-- The multiple of `10 ^ exponent` that is nearest to the number, if it rounds
to it. Between two multiples equally near, the even one is taken. -/
def onGrid? (x : Binary64) (exponent : Int) : Option Decimal :=
  -- a quarter of a unit in the last place is `quarter / step` steps of the grid
  let quarter := Nat.pow 2 x.units.exponent * Nat.pow 10 (-exponent).toNat
  let step := 4 * one * Nat.pow 10 exponent.toNat
  let below := x.quarters * quarter / step
  let nearest := roundDiv (x.quarters * quarter) step
  let other := if nearest = below then below + 1 else below
  if x.covers (nearest * step) quarter then some ⟨nearest, exponent⟩
  else if x.covers (other * step) quarter then some ⟨other, exponent⟩
  else none

/-- An exponent for which `10 ^ exponent` is larger than the number, but less than
ten thousand times as large: `30103 / 100000` is the logarithm of 2 to base ten,
to the accuracy that the range of exponents needs. -/
def gridAbove (x : Binary64) : Int :=
  ((x.units.significand.log2 : Int) + 1 + x.units.exponent - 1074) * 30103 / 100000 + 2

/-- The shortest decimal that rounds to the number; of several, the nearest. No
number needs more than 17 digits. -/
def shortest (x : Binary64) : Decimal :=
  ((List.range 24).findSome? fun (i : Nat) => x.onGrid? (x.gridAbove - i)).getD ⟨0, 0⟩

end Binary64

end JsxProvenance
