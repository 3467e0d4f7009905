import JsxProvenance.Number.Shortest

/-!
How a binary64 number is written in a message: with a decimal point as long as
that keeps the text short, and with a power of ten otherwise. A point has a digit
on either side of it, so a whole number ends in `.0`.
-/

namespace JsxProvenance

namespace Decimal

/-- The digits of the number, the first of them not zero. -/
def digitText (x : Decimal) : String :=
  toString x.digits

/-- The place of the decimal point, counted from the left of the digits. -/
def point (x : Decimal) : Int :=
  x.digitText.length + x.exponent

def zeros (n : Nat) : String :=
  String.ofList (List.replicate n '0')

/-- The digits with a point behind the first of them, and the power of ten that
this leaves. -/
def scientific (x : Decimal) : String :=
  match x.digitText.toList with
  | [] => ""
  | [digit] => String.ofList [digit] ++ "e" ++ toString (x.point - 1)
  | digit :: rest => String.ofList (digit :: '.' :: rest) ++ "e" ++ toString (x.point - 1)

/-- At most 16 digits stand before the point, and at most 4 zeros follow one that
comes before all digits. -/
def text (x : Decimal) : String :=
  if 0 ≤ x.exponent ∧ x.point ≤ 16 then
    x.digitText ++ zeros x.exponent.toNat ++ ".0"
  else if 0 < x.point ∧ x.point ≤ 16 then
    String.ofList (x.digitText.toList.take x.point.toNat) ++ "." ++
      String.ofList (x.digitText.toList.drop x.point.toNat)
  else if -5 < x.point ∧ x.point ≤ 0 then
    "0." ++ zeros (-x.point).toNat ++ x.digitText
  else x.scientific

end Decimal

/-- The text of a number in a message. -/
def Binary64.text (x : Binary64) : String :=
  if x = zero then "0.0" else x.shortest.text

example : (Binary64.powerOfTen 15).text = "1000000000000000.0" := by decide +kernel

example : (Binary64.powerOfTen 16).text = "1e16" := by decide +kernel

example : ((Binary64.ofNat 15).scaleDown 1).text = "1.5" := by decide +kernel

example : ((Binary64.ofNat 1).scaleDown 5).text = "0.00001" := by decide +kernel

example : ((Binary64.ofNat 12).scaleDown 7).text = "1.2e-6" := by decide +kernel

end JsxProvenance
