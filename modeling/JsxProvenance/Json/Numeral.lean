import JsxProvenance.Json.Basic

/-!
Numerals of JSON texts. Reading splits a numeral into its parts, and its value is
found from the parts. The digits before and behind the point form a significand
of 64 bits; those for which there is no room do not count, except that dropped
digits before the point still scale the number by ten. The significand is then
scaled in binary64 arithmetic, so that a value of many digits may differ from the
nearest number of the format in its last bits.
-/

namespace JsxProvenance

/-- The part of a numeral behind `e`. -/
structure Exponent where
  negative : Bool
  digits : List Char
deriving DecidableEq, Repr

/-- The parts of a numeral. The fraction of a numeral without a point is empty. -/
structure Numeral where
  negative : Bool
  whole : List Char
  fraction : List Char
  exponent : Option Exponent
deriving DecidableEq, Repr

namespace Numeral

def digitValue (c : Char) : Nat :=
  c.toNat - '0'.toNat

/-- Appends decimal digits to a number as long as it stays below a limit. Also
gives the digits from the first one on that was too much. -/
def absorb (limit : Nat) : Nat → List Char → Nat × List Char
  | value, [] => (value, [])
  | value, c :: rest =>
      if value * 10 + digitValue c < limit then absorb limit (value * 10 + digitValue c) rest
      else (value, c :: rest)

/-- Significands are below this limit. -/
def significandLimit : Nat := Nat.pow 2 64

/-- Exponents are below this limit. -/
def exponentLimit : Nat := Nat.pow 2 31

/-- The largest absolute value of a negative integer. -/
def negativeLimit : Nat := Nat.pow 2 63

/-- A significand scaled by a power of ten, or nothing if that is out of range. -/
def scaled? (negative : Bool) (significand : Nat) (scale : Int) : Option Number :=
  if 0 ≤ scale then
    ((Binary64.ofNat significand).scaleUp? scale.toNat).map (.real negative)
  else
    some (.real negative ((Binary64.ofNat significand).scaleDown (-scale).toNat))

/-- The integer of a numeral without fraction and exponent. A negative one is at
least `-2 ^ 63`; below that, and for minus zero, there is none. -/
def integer? (negative : Bool) (significand : Nat) : Option Int :=
  if !negative then some significand
  else if 0 < significand ∧ significand ≤ negativeLimit then some (-significand)
  else none

/-- The value of a numeral. One that is out of range gives instead the number of
its last digits that were not needed to find that out. -/
def value (numeral : Numeral) : Except Nat Number :=
  let (whole, dropped) := absorb significandLimit 0 numeral.whole
  let (significand, ignored) := absorb significandLimit whole numeral.fraction
  let scale : Int := dropped.length - (numeral.fraction.length - ignored.length : Nat)
  let scaledBy (power : Int) : Except Nat Number :=
    match scaled? numeral.negative significand (scale + power) with
    | some number => .ok number
    | none => .error 0
  match numeral.exponent with
  | none =>
      if numeral.fraction = [] ∧ dropped = [] then
        match integer? numeral.negative significand with
        | some value => .ok (.int value)
        | none => scaledBy 0
      else scaledBy 0
  | some exponent =>
      match absorb exponentLimit 0 exponent.digits with
      | (power, []) => scaledBy (if exponent.negative then -power else power)
      | (_, _ :: unread) =>
          if significand ≠ 0 ∧ !exponent.negative then .error unread.length
          else .ok (.real numeral.negative .zero)

/-- Blames the lack of a digit. -/
def noDigit (s : List Char) : Fault :=
  .on (if s = [] then .endInValue else .invalidNumber) s

/-- The digits that a text begins with; there must be one. -/
def readDigits (s : List Char) : Except Fault (List Char × List Char) :=
  if s.takeWhile Char.isDigit = [] then .error (noDigit s)
  else .ok (s.takeWhile Char.isDigit, s.dropWhile Char.isDigit)

/-- The digits before the point. A zero stands alone. -/
def readWhole : List Char → Except Fault (List Char × List Char)
  | '0' :: next :: rest =>
      if next.isDigit then .error (.on .invalidNumber (next :: rest))
      else .ok (['0'], next :: rest)
  | s => readDigits s

/-- The digits behind the point, if there is a point. -/
def readFraction : List Char → Except Fault (List Char × List Char)
  | '.' :: rest => readDigits rest
  | s => .ok ([], s)

/-- A sign that may be left out. -/
def readSign : List Char → Bool × List Char
  | '-' :: rest => (true, rest)
  | '+' :: rest => (false, rest)
  | s => (false, s)

/-- The exponent, if there is one. -/
def readExponent : List Char → Except Fault (Option Exponent × List Char)
  | c :: rest =>
      if c = 'e' ∨ c = 'E' then
        match readDigits (readSign rest).2 with
        | .ok (digits, rest') => .ok (some ⟨(readSign rest).1, digits⟩, rest')
        | .error fault => .error fault
      else .ok (none, c :: rest)
  | [] => .ok (none, [])

/-- The numeral that a text begins with, its sign already taken off. -/
def read (negative : Bool) (s : List Char) : Except Fault (Numeral × List Char) := do
  let (whole, afterWhole) ← readWhole s
  let (fraction, afterFraction) ← readFraction afterWhole
  let (exponent, rest) ← readExponent afterFraction
  return (⟨negative, whole, fraction, exponent⟩, rest)

/-- The number that a text begins with, its sign already taken off. -/
def readNumber (negative : Bool) (s : List Char) : Except Fault (Number × List Char) := do
  let (numeral, rest) ← read negative s
  match numeral.value with
  | .ok number => return (number, rest)
  | .error unread => throw ⟨.numberOutOfRange, byteLength rest + unread⟩

theorem readDigits_length {s digits rest : List Char} (h : readDigits s = .ok (digits, rest)) :
    rest.length < s.length := by
  unfold readDigits at h
  split at h
  · cases h
  · rename_i hdigits
    simp only [Except.ok.injEq, Prod.mk.injEq] at h
    have hlength := congrArg List.length
      (List.takeWhile_append_dropWhile : s.takeWhile Char.isDigit ++ s.dropWhile Char.isDigit = s)
    rw [List.length_append] at hlength
    have := List.length_pos_iff.mpr hdigits
    rw [← h.2]
    omega

theorem readWhole_length {s digits rest : List Char} (h : readWhole s = .ok (digits, rest)) :
    rest.length < s.length := by
  unfold readWhole at h
  split at h
  · split at h
    · cases h
    · simp only [Except.ok.injEq, Prod.mk.injEq] at h
      simp [← h.2]
  · exact readDigits_length h

theorem readFraction_length {s digits rest : List Char}
    (h : readFraction s = .ok (digits, rest)) : rest.length ≤ s.length := by
  unfold readFraction at h
  split at h
  · have := readDigits_length h
    simp only [List.length_cons]
    omega
  · simp_all

theorem readSign_length (s : List Char) : (readSign s).2.length ≤ s.length := by
  unfold readSign
  split <;> simp

theorem readExponent_length {s rest : List Char} {exponent : Option Exponent}
    (h : readExponent s = .ok (exponent, rest)) : rest.length ≤ s.length := by
  unfold readExponent at h
  split at h
  · rename_i c rest'
    split at h
    · split at h
      · rename_i digits rest'' hdigits
        have := readDigits_length hdigits
        have := readSign_length rest'
        simp only [Except.ok.injEq, Prod.mk.injEq] at h
        rw [← h.2]
        simp only [List.length_cons]
        omega
      · cases h
    · simp_all
  · simp_all

/-- A numeral is read part by part. -/
theorem exists_parts_of_read {negative : Bool} {s rest : List Char} {numeral : Numeral}
    (h : read negative s = .ok (numeral, rest)) :
    ∃ whole afterWhole fraction afterFraction exponent,
      readWhole s = .ok (whole, afterWhole) ∧
      readFraction afterWhole = .ok (fraction, afterFraction) ∧
      readExponent afterFraction = .ok (exponent, rest) ∧
      numeral = ⟨negative, whole, fraction, exponent⟩ := by
  unfold read at h
  obtain ⟨⟨whole, afterWhole⟩, hwhole, h⟩ := Fault.exists_of_bind h
  obtain ⟨⟨fraction, afterFraction⟩, hfraction, h⟩ := Fault.exists_of_bind h
  obtain ⟨⟨exponent, rest'⟩, hexponent, h⟩ := Fault.exists_of_bind h
  cases h
  exact ⟨whole, afterWhole, fraction, afterFraction, exponent, hwhole, hfraction, hexponent, rfl⟩

theorem read_length {negative : Bool} {s rest : List Char} {numeral : Numeral}
    (h : read negative s = .ok (numeral, rest)) : rest.length < s.length := by
  obtain ⟨whole, afterWhole, fraction, afterFraction, exponent, hwhole, hfraction, hexponent, _⟩ :=
    exists_parts_of_read h
  have := readWhole_length hwhole
  have := readFraction_length hfraction
  have := readExponent_length hexponent
  omega

theorem exists_numeral_of_readNumber {negative : Bool} {s rest : List Char} {number : Number}
    (h : readNumber negative s = .ok (number, rest)) :
    ∃ numeral, read negative s = .ok (numeral, rest) ∧ numeral.value = .ok number := by
  unfold readNumber at h
  obtain ⟨⟨numeral, rest'⟩, hread, h⟩ := Fault.exists_of_bind h
  cases hvalue : numeral.value with
  | error unread =>
      simp only [hvalue] at h
      cases h
  | ok value =>
      simp only [hvalue] at h
      cases h
      exact ⟨numeral, hread, hvalue⟩

theorem readNumber_length {negative : Bool} {s rest : List Char} {number : Number}
    (h : readNumber negative s = .ok (number, rest)) : rest.length < s.length := by
  obtain ⟨numeral, hread, _⟩ := exists_numeral_of_readNumber h
  exact read_length hread

end Numeral

end JsxProvenance
