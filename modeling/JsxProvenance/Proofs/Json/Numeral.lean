import JsxProvenance.Json.Grammar
import Mathlib.Data.List.Basic

/-!
Numerals are read back as what they spell. A numeral has no closing mark, so what stands
behind it takes part: each part of it ends where the next character cannot belong to it.
`Follows` says this of a text that comes behind a part, and `Ends` of one that comes behind
a whole numeral. The digits that Lean prints for an integer are a numeral of that value, if
there are no more than 18 of them.

Main statements: `Numeral.read_text` for every numeral, `Numeral.text_ofInt` and
`Numeral.value_ofInt` for the printed ones.
-/

namespace JsxProvenance

namespace Numeral

/-- The text does not begin with a character of the class. -/
def Follows (p : Char → Bool) (rest : List Char) : Prop :=
  ∀ c, rest.head? = some c → p c = false

/-- The characters that can go on a numeral. -/
def continues (c : Char) : Bool :=
  c.isDigit || c = '.' || c = 'e' || c = 'E'

/-- The text does not go on a numeral that stands in front of it. -/
def Ends (rest : List Char) : Prop :=
  Follows continues rest

theorem follows_cons {p : Char → Bool} {c : Char} (h : p c = false) (rest : List Char) :
    Follows p (c :: rest) := by
  intro first hfirst
  obtain rfl := Option.some.inj hfirst
  exact h

theorem ends_nil : Ends [] := by
  intro c h
  cases h

theorem Ends.follows_isDigit {rest : List Char} (h : Ends rest) : Follows Char.isDigit rest := by
  intro c hc
  have hcontinues := h c hc
  simp only [continues, Bool.or_eq_false_iff] at hcontinues
  exact hcontinues.1.1.1

/-- A run of digits is read up to its end. -/
theorem readDigits_append {digits rest : List Char} (h : Digits digits)
    (hrest : Follows Char.isDigit rest) : readDigits (digits ++ rest) = .ok (digits, rest) := by
  have hstop : rest.takeWhile Char.isDigit = [] ∧ rest.dropWhile Char.isDigit = rest := by
    cases rest with
    | nil => exact ⟨rfl, rfl⟩
    | cons c more => simp [hrest c rfl]
  have htake : (digits ++ rest).takeWhile Char.isDigit = digits := by
    rw [List.takeWhile_append_of_pos h.2, hstop.1, List.append_nil]
  have hdrop : (digits ++ rest).dropWhile Char.isDigit = rest := by
    rw [List.dropWhile_append_of_pos h.2, hstop.2]
  rw [readDigits, htake, hdrop, if_neg h.1]

theorem readWhole_append {whole rest : List Char} (h : WholeDigits whole)
    (hrest : Follows Char.isDigit rest) : readWhole (whole ++ rest) = .ok (whole, rest) := by
  have hdigits := readDigits_append h.1 hrest
  unfold readWhole
  split
  · rename_i next more hsplit
    -- a zero in front stands alone, so what comes next is not a digit
    have hzero : whole = ['0'] := by
      apply h.2
      cases whole with
      | nil => exact absurd rfl h.1.1
      | cons c digits =>
          obtain ⟨rfl, _⟩ := List.cons.inj hsplit
          rfl
    subst hzero
    obtain rfl := (List.cons.inj hsplit).2
    rw [hrest next rfl]
    rfl
  · exact hdigits

theorem readFraction_append {fraction text rest : List Char} (h : FractionText fraction text)
    (hrest : Follows (fun c => c.isDigit || c = '.') rest) :
    readFraction (text ++ rest) = .ok (fraction, rest) := by
  have hnext : ∀ c, rest.head? = some c → c.isDigit = false ∧ c ≠ '.' := by
    intro c hc
    simpa using hrest c hc
  cases h with
  | absent =>
      rw [List.nil_append]
      unfold readFraction
      split
      · exact absurd rfl (hnext '.' rfl).2
      · rfl
  | present h =>
      exact readDigits_append h fun c hc => (hnext c hc).1

theorem exists_digit {digits : List Char} (h : Digits digits) :
    ∃ c rest, digits = c :: rest ∧ c.isDigit = true := by
  cases digits with
  | nil => exact absurd rfl h.1
  | cons c rest => exact ⟨c, rest, rfl, h.2 c List.mem_cons_self⟩

theorem readSign_digits {digits : List Char} (h : Digits digits) (rest : List Char) :
    readSign (digits ++ rest) = (false, digits ++ rest) := by
  obtain ⟨c, more, rfl, hc⟩ := exists_digit h
  have hminus : c ≠ '-' := by
    rintro rfl
    cases hc
  have hplus : c ≠ '+' := by
    rintro rfl
    cases hc
  simp [readSign, hminus, hplus]

theorem readExponent_append {exponent : Option Exponent} {text rest : List Char}
    (h : ExponentText exponent text) (hrest : Ends rest) :
    readExponent (text ++ rest) = .ok (exponent, rest) := by
  cases h with
  | absent =>
      cases rest with
      | nil => rfl
      | cons c more =>
          have hcontinues := hrest c rfl
          simp only [continues, Bool.or_eq_false_iff, decide_eq_false_iff_not] at hcontinues
          simp [readExponent, hcontinues]
  | unsigned hmark h =>
      have hdigits := readDigits_append h hrest.follows_isDigit
      simp [readExponent, hmark, readSign_digits h, hdigits]
  | positive hmark h | negative hmark h =>
      have hdigits := readDigits_append h hrest.follows_isDigit
      simp [readExponent, hmark, readSign, hdigits]

/-- An exponent ends the digits in front of it, and is not a point. -/
theorem follows_exponent {exponent : Option Exponent} {text rest : List Char}
    (h : ExponentText exponent text) (hrest : Ends rest) :
    Follows (fun c => c.isDigit || c = '.') (text ++ rest) := by
  have hmarks : ∀ mark : Char, mark = 'e' ∨ mark = 'E' →
      (mark.isDigit || decide (mark = '.')) = false := by
    rintro mark (rfl | rfl) <;> decide
  cases h with
  | absent =>
      intro c hc
      have hcontinues := hrest c hc
      simp only [continues, Bool.or_eq_false_iff] at hcontinues ⊢
      exact hcontinues.1.1
  | unsigned hmark h | positive hmark h | negative hmark h =>
      exact follows_cons (hmarks _ hmark) _

theorem follows_fraction {fraction text rest : List Char} (h : FractionText fraction text)
    (hrest : Follows (fun c => c.isDigit || c = '.') rest) :
    Follows Char.isDigit (text ++ rest) := by
  cases h with
  | absent =>
      intro c hc
      exact (Bool.or_eq_false_iff.mp (hrest c hc)).1
  | present h => exact follows_cons (by decide) _

/-- A numeral is read from its text behind the sign, which begins with a digit. -/
theorem read_text {numeral : Numeral} {text : List Char} (h : Text numeral text) :
    ∃ unsigned, text = (if numeral.negative then ['-'] else []) ++ unsigned ∧
      (∃ c more, unsigned = c :: more ∧ c.isDigit = true) ∧
      ∀ rest, Ends rest → read numeral.negative (unsigned ++ rest) = .ok (numeral, rest) := by
  obtain @⟨negative, whole, fraction, fractionText, exponentText, exponent, hwhole, hfraction,
    hexponent⟩ := h
  refine ⟨whole ++ fractionText ++ exponentText, by simp only [List.append_assoc], ?_, ?_⟩
  · obtain ⟨c, more, rfl, hc⟩ := exists_digit hwhole.1
    exact ⟨c, _, rfl, hc⟩
  · intro rest hrest
    have hbehind := follows_exponent hexponent hrest
    have hread := readWhole_append hwhole (follows_fraction hfraction hbehind)
    rw [List.append_assoc, List.append_assoc, read, hread]
    simp only [bind, Except.bind, readFraction_append hfraction hbehind,
      readExponent_append hexponent hrest]
    rfl

theorem readNumber_of_read {negative : Bool} {s rest : List Char} {numeral : Numeral}
    {number : Number} (h : read negative s = .ok (numeral, rest))
    (hvalue : numeral.value = .ok number) : readNumber negative s = .ok (number, rest) := by
  simp only [readNumber, h, bind, Except.bind, hvalue]
  rfl

theorem le_ofDigitChars (digits : List Char) (value : Nat) :
    value ≤ Nat.ofDigitChars 10 digits value := by
  rw [Nat.ofDigitChars_eq_ofDigitChars_zero]
  have hscale : 1 * value ≤ 10 ^ digits.length * value :=
    Nat.mul_le_mul_right value (Nat.pow_pos (by decide))
  omega

/-- Digits that stay below the limit are all absorbed. -/
theorem absorb_of_lt {limit : Nat} (digits : List Char) (value : Nat)
    (h : Nat.ofDigitChars 10 digits value < limit) :
    absorb limit value digits = (Nat.ofDigitChars 10 digits value, []) := by
  induction digits generalizing value with
  | nil => rfl
  | cons c rest ih =>
      have hnext : Nat.ofDigitChars 10 (c :: rest) value =
          Nat.ofDigitChars 10 rest (value * 10 + digitValue c) := by
        rw [Nat.ofDigitChars_cons, Nat.mul_comm 10 value]
        rfl
      rw [hnext] at h ⊢
      have hfits : value * 10 + digitValue c < limit :=
        Nat.lt_of_le_of_lt (le_ofDigitChars rest _) h
      rw [absorb, if_pos hfits, ih _ h]

theorem digits_toDigits (n : Nat) : Digits (Nat.toDigits 10 n) :=
  ⟨Nat.toDigits_ne_nil, fun _ member => Nat.isDigit_of_mem_toDigits (by decide) (by decide) member⟩

/-- No number but zero is printed with a zero in front. -/
theorem wholeDigits_toDigits (n : Nat) : WholeDigits (Nat.toDigits 10 n) := by
  refine ⟨digits_toDigits n, ?_⟩
  induction n using Nat.strongRecOn with
  | ind n ih =>
      intro hzero
      rw [Nat.toDigits_eq_if (by decide)] at hzero ⊢
      split at hzero
      · rename_i hsmall
        rw [if_pos hsmall]
        rw [List.head?_cons] at hzero
        rw [Option.some.inj hzero]
      · rename_i hlarge
        exfalso
        have hhead : (Nat.toDigits 10 (n / 10)).head? = some '0' := by
          rwa [List.head?_append_of_ne_nil _ Nat.toDigits_ne_nil] at hzero
        have hdigits := ih (n / 10) (by omega) hhead
        have hvalue : Nat.ofDigitChars 10 (Nat.toDigits 10 (n / 10)) 0 = n / 10 :=
          Nat.ofDigitChars_ten_toDigits
        rw [hdigits] at hvalue
        have : n / 10 = 0 := hvalue.symm
        omega

/-- The numeral of an integer, as it is printed. -/
def ofInt (n : Int) : Numeral :=
  ⟨decide (n < 0), Nat.toDigits 10 n.natAbs, [], none⟩

theorem toList_toString (n : Int) :
    (toString n).toList =
      (if (ofInt n).negative then ['-'] else []) ++ Nat.toDigits 10 n.natAbs := by
  rw [Int.toString_eq_repr, Int.repr_eq_if]
  by_cases hsign : 0 ≤ n
  · have hpositive : ¬ n < 0 := Int.not_lt.mpr hsign
    have habs : n.toNat = n.natAbs := by omega
    rw [if_pos hsign, Nat.repr_eq_ofList_toDigits, String.toList_ofList, habs]
    simp [ofInt, hpositive]
  · have hnegative : n < 0 := Int.not_le.mp hsign
    have habs : (-n).toNat = n.natAbs := by omega
    rw [if_neg hsign, String.toList_append, Nat.repr_eq_ofList_toDigits, String.toList_ofList,
      habs]
    simp [ofInt, hnegative]

theorem text_ofInt (n : Int) : Text (ofInt n) (toString n).toList := by
  have htext : Text (ofInt n) _ :=
    .mk (wholeDigits_toDigits n.natAbs) .absent .absent
  rw [List.append_nil, List.append_nil] at htext
  rw [toList_toString]
  exact htext

theorem integer?_of_short {n : Int} (h : Json.Short n) :
    integer? (ofInt n).negative n.natAbs = some n := by
  have hlimit : n.natAbs ≤ negativeLimit := by
    have hbound : Nat.pow 10 18 ≤ negativeLimit := by decide
    exact Nat.le_of_lt (Nat.lt_of_lt_of_le h hbound)
  have hnegative : (ofInt n).negative = decide (n < 0) := rfl
  rw [hnegative, integer?]
  by_cases hsign : n < 0
  · have hpositive : 0 < n.natAbs := by omega
    have habs : -(n.natAbs : Int) = n := by omega
    rw [decide_eq_true hsign, if_neg (by decide), if_pos ⟨hpositive, hlimit⟩, habs]
  · have habs : (n.natAbs : Int) = n := by omega
    rw [decide_eq_false hsign, if_pos (by decide), habs]

/-- An integer of at most 18 digits is read as itself. -/
theorem value_ofInt {n : Int} (h : Json.Short n) : (ofInt n).value = .ok (.int n) := by
  have hdigits : Nat.ofDigitChars 10 (Nat.toDigits 10 n.natAbs) 0 = n.natAbs :=
    Nat.ofDigitChars_ten_toDigits
  have hlimit : Nat.ofDigitChars 10 (Nat.toDigits 10 n.natAbs) 0 < significandLimit := by
    have hbound : Nat.pow 10 18 ≤ significandLimit := by decide
    rw [hdigits]
    exact Nat.lt_of_lt_of_le h hbound
  have habsorb := absorb_of_lt _ _ hlimit
  rw [hdigits] at habsorb
  have hinteger := integer?_of_short h
  simp only [ofInt] at hinteger
  simp [value, ofInt, habsorb, absorb, hinteger]

end Numeral

end JsxProvenance
