import JsxProvenance.Tree.Shape

/-!
The values that slots for values can hold. A numeric literal holds a binary64
number, and a big integer literal holds a sign and the limbs of its magnitude, the
least first, without zeros in front. An object may give the value in another form;
the slot then holds the value that this form stands for, or comes nearest to.
-/

namespace JsxProvenance

namespace Tree

/-- The value of a numeric literal. -/
def numericValue : Tree → Tree
  | .number value => .number value.toBinary64
  | tree => tree

def isZero : Tree → Bool
  | .number (.int value) => value == 0
  | _ => false

/-- Limbs without the zeros in front, which stand at the end of the list. -/
def dropLeadingZeros (limbs : List Tree) : List Tree :=
  (limbs.reverse.dropWhile isZero).reverse

/-- The value of a big integer literal. Zero has no sign and no limbs. -/
def bigIntegerValue : Tree → Tree
  | .list [sign, .list limbs] =>
      if sign.isZero || (dropLeadingZeros limbs).isEmpty then
        .list [.number (.int 0), .list []]
      else .list [sign, .list (dropLeadingZeros limbs)]
  | tree => tree

/-- The value of a modifier: it may spell `true` out. -/
def modifierValue : Tree → Tree
  | .text "true" => .bool true
  | tree => tree

example : bigIntegerValue (.list [.number (.int 1), .list [.number (.int 7), .number (.int 0)]]) =
    .list [.number (.int 1), .list [.number (.int 7)]] := rfl

example : bigIntegerValue (.list [.number (.int (-1)), .list [.number (.int 0)]]) =
    .list [.number (.int 0), .list []] := rfl

end Tree

/-- What a slot holds of a value that was read for it. -/
def Slot.settle : Slot → Tree → Tree
  | .numeric, value => value.numericValue
  | .bigInteger, value => value.bigIntegerValue
  | .modifier, value => value.modifierValue
  | _, value => value

end JsxProvenance
