import JsxProvenance.Json.Grammar

/-!
Strings are read back as what they spell. One lemma for each way to spell a character
says what the reader makes of that spelling, whatever comes behind it; a whole string is
then an induction over its characters. The canonical spelling is one of them, so a string
that was written is read back as itself.
-/

namespace JsxProvenance

namespace Quoted

/-- A character in front of what was read. -/
def consChar (c : Char) (result : Except Fault (List Char × List Char)) :
    Except Fault (List Char × List Char) :=
  result.map fun (chars, rest) => (c :: chars, rest)

theorem read_quote (rest : List Char) : read ('"' :: rest) = .ok ([], rest) := by
  rw [read, if_pos rfl]

theorem read_plain {c : Char} (h : Plain c) (rest : List Char) :
    read (c :: rest) = consChar c (read rest) := by
  obtain ⟨hquote, hbackslash, hcontrol⟩ := h
  rw [read, if_neg hquote, if_neg hbackslash, if_neg (Nat.not_lt.mpr hcontrol)]
  cases read rest <;> rfl

theorem read_escape {s rest : List Char} {c : Char} (h : readEscape s = .ok (c, rest)) :
    read ('\\' :: s) = consChar c (read rest) := by
  rw [read, if_neg (by decide), if_pos rfl]
  split
  · rename_i fault hfault
    rw [h] at hfault
    cases hfault
  · rename_i char rest' hchar
    rw [h] at hchar
    cases hchar
    cases read rest <;> rfl

/-- In a range of digits, a digit is its value above that of the first. -/
theorem hexDigit_of_range (first count offset : Nat)
    (hdigits : ∀ k < count, HexDigit (k + offset) (Char.ofNat (first + k))) {c : Char}
    (hlow : first ≤ c.toNat) (hhigh : c.toNat < first + count) :
    HexDigit (c.toNat - first + offset) c := by
  have hdigit := hdigits (c.toNat - first) (by omega)
  have hcode : first + (c.toNat - first) = c.toNat := by omega
  rwa [hcode, Char.ofNat_toNat] at hdigit

theorem hexValue?_eq_some_iff {c : Char} {value : Nat} :
    hexValue? c = some value ↔ HexDigit value c := by
  constructor
  · intro h
    unfold hexValue? at h
    split at h
    · rename_i hrange
      rw [← Option.some.inj h]
      exact hexDigit_of_range 48 10 0 (by decide) hrange.1 (Nat.lt_succ_of_le hrange.2)
    split at h
    · rename_i hrange
      rw [← Option.some.inj h]
      exact hexDigit_of_range 97 6 10 (by decide) hrange.1 (Nat.lt_succ_of_le hrange.2)
    split at h
    · rename_i hrange
      rw [← Option.some.inj h]
      exact hexDigit_of_range 65 6 10 (by decide) hrange.1 (Nat.lt_succ_of_le hrange.2)
    · cases h
  · rintro ⟨hvalue, rfl | rfl⟩
    · revert value
      decide
    · revert value
      decide

theorem unit?_eq_some_iff {p q r s : Char} {unit : Nat} :
    unit? p q r s = some unit ↔ UnitText unit [p, q, r, s] := by
  constructor
  · intro h
    simp only [unit?, bind, Option.bind_eq_some_iff, pure, Option.some.injEq] at h
    obtain ⟨a, ha, b, hb, c, hc, d, hd, rfl⟩ := h
    rw [hexValue?_eq_some_iff] at ha hb hc hd
    exact .mk ha hb hc hd
  · intro h
    obtain @⟨a, b, c, d, _, _, _, _, ha, hb, hc, hd⟩ := h
    rw [← hexValue?_eq_some_iff] at ha hb hc hd
    simp [unit?, ha, hb, hc, hd]

theorem readUnit_unitText {unit : Nat} {digits : List Char} (h : UnitText unit digits)
    (rest : List Char) : readUnit (digits ++ rest) = .ok (unit, rest) := by
  obtain @⟨a, b, c, d, p, q, r, s, hp, hq, hr, hs⟩ := h
  have hunit := unit?_eq_some_iff.mpr (.mk hp hq hr hs)
  simp only [List.cons_append, List.nil_append, readUnit, hunit]

theorem unitText_lt {unit : Nat} {digits : List Char} (h : UnitText unit digits) :
    unit < 0x10000 := by
  obtain ⟨⟨ha, _⟩, ⟨hb, _⟩, ⟨hc, _⟩, ⟨hd, _⟩⟩ := h
  omega

theorem shortEscape?_eq_some_iff {letter c : Char} :
    shortEscape? letter = some c ↔ (letter, c) ∈ escapeLetters := by
  constructor
  · intro h
    unfold shortEscape? at h
    split at h <;> cases h <;> decide
  · intro h
    simp only [escapeLetters, List.mem_cons, Prod.mk.injEq, List.not_mem_nil, or_false] at h
    rcases h with h | h | h | h | h | h | h | h <;> rw [h.1, h.2] <;> rfl

/-- A character of a code that characters can have has that code. -/
theorem toNat_ofNat {code : Nat} (h : code.isValidChar) : (Char.ofNat code).toNat = code := by
  rw [Char.ofNat, dif_pos h]
  rfl

theorem readEscape_short {c letter : Char} (h : (letter, c) ∈ escapeLetters)
    (rest : List Char) : readEscape (letter :: rest) = .ok (c, rest) := by
  rw [← shortEscape?_eq_some_iff] at h
  -- `u` opens a code unit, and is not the letter of a short escape
  have hletter : letter ≠ 'u' := by
    rintro rfl
    cases h
  rw [readEscape]
  · simp only [h]
  · exact hletter

theorem not_isHighSurrogate_toNat (c : Char) : ¬ IsHighSurrogate c.toNat := by
  have hvalid : c.toNat.isValidChar := c.valid
  simp only [IsHighSurrogate]
  omega

theorem not_isLowSurrogate_toNat (c : Char) : ¬ IsLowSurrogate c.toNat := by
  have hvalid : c.toNat.isValidChar := c.valid
  simp only [IsLowSurrogate]
  omega

theorem readEscape_unit {c : Char} {digits : List Char} (h : UnitText c.toNat digits)
    (rest : List Char) : readEscape ('u' :: digits ++ rest) = .ok (c, rest) := by
  simp only [List.cons_append, readEscape, readUnit_unitText h,
    if_neg (not_isLowSurrogate_toNat c), if_neg (not_isHighSurrogate_toNat c), Char.ofNat_toNat]

theorem readEscape_pair {c : Char} {high low : Nat} {digits digits' : List Char}
    (h : UnitText high digits) (h' : UnitText low digits') (hhigh : IsHighSurrogate high)
    (hlow : IsLowSurrogate low)
    (hc : c.toNat = 0x10000 + (high - 0xD800) * 0x400 + (low - 0xDC00)) (rest : List Char) :
    readEscape ('u' :: digits ++ '\\' :: 'u' :: digits' ++ rest) = .ok (c, rest) := by
  have hnotLow : ¬ IsLowSurrogate high := by
    simp only [IsHighSurrogate, IsLowSurrogate] at hhigh ⊢
    omega
  have hpair : pair high low = c := by
    rw [pair, ← hc, Char.ofNat_toNat]
  simp only [List.cons_append, List.append_assoc, readEscape, readUnit_unitText h,
    if_neg hnotLow, if_pos hhigh, readLow, readUnit_unitText h', if_pos hlow, hpair]

/-- A character is read from any of its spellings. -/
theorem read_spells {c : Char} {s : List Char} (h : Spells c s) (rest : List Char) :
    read (s ++ rest) = consChar c (read rest) := by
  cases h with
  | plain h => exact read_plain h rest
  | short h => exact read_escape (readEscape_short h rest)
  | unit h => exact read_escape (readEscape_unit h rest)
  | pair h h' hhigh hlow hc => exact read_escape (readEscape_pair h h' hhigh hlow hc rest)

theorem read_body {chars s : List Char} (h : Body chars s) (rest : List Char) :
    read (s ++ '"' :: rest) = .ok (chars, rest) := by
  induction h with
  | nil => exact read_quote rest
  | cons hchar _ ih =>
      rw [List.append_assoc, read_spells hchar, ih]
      rfl

/-- A string is read from its text between the quotes and the closing quote. -/
theorem readString_body {chars s : List Char} (h : Body chars s) (rest : List Char) :
    readString (s ++ '"' :: rest) = .ok (String.ofList chars, rest) := by
  rw [readString, read_body h]
  rfl

theorem unitText_control : ∀ code < 0x20,
    UnitText code ['0', '0', Nat.digitChar (code / 16), Nat.digitChar (code % 16)] := by
  simp only [← unit?_eq_some_iff]
  decide

theorem spells_escapeChar (c : Char) : Spells c (escapeChar c) := by
  unfold escapeChar
  split
  · rename_i hquote
    rw [hquote]
    exact .short (by decide)
  split
  · rename_i hbackslash
    rw [hbackslash]
    exact .short (by decide)
  split
  · rename_i hcontrol
    exact .unit (unitText_control c.toNat hcontrol)
  · rename_i hquote hbackslash hcontrol
    exact .plain ⟨hquote, hbackslash, Nat.not_lt.mp hcontrol⟩

theorem body_flatMap_escapeChar (chars : List Char) :
    Body chars (chars.flatMap escapeChar) := by
  induction chars with
  | nil => exact .nil
  | cons c rest ih => exact .cons (spells_escapeChar c) ih

theorem literal_write (value : String) : Literal value (write value) := by
  have hquoted := Literal.quoted (body_flatMap_escapeChar value.toList)
  rwa [String.ofList_toList] at hquoted

end Quoted

end JsxProvenance
