import JsxProvenance.Json.Basic

/-!
Strings of JSON texts. Between the quotes every character stands for itself,
except control characters, which may not appear, and the backslash, which opens
an escape. An escape `\uXXXX` gives a UTF-16 code unit; units of the surrogate
ranges are only read in pairs, a high one and then a low one, that together give
one character.
-/

namespace JsxProvenance

namespace Quoted

/-- The characters that have an escape of two characters. -/
def shortEscape? : Char → Option Char
  | '"' => some '"'
  | '\\' => some '\\'
  | '/' => some '/'
  | 'b' => some '\x08'
  | 'f' => some '\x0c'
  | 'n' => some '\n'
  | 'r' => some '\r'
  | 't' => some '\t'
  | _ => none

/-- The value of a hexadecimal digit of either case. -/
def hexValue? (c : Char) : Option Nat :=
  if '0' ≤ c ∧ c ≤ '9' then some (c.toNat - '0'.toNat)
  else if 'a' ≤ c ∧ c ≤ 'f' then some (c.toNat - 'a'.toNat + 10)
  else if 'A' ≤ c ∧ c ≤ 'F' then some (c.toNat - 'A'.toNat + 10)
  else none

/-- The value of four hexadecimal digits. -/
def unit? (a b c d : Char) : Option Nat := do
  return (((← hexValue? a) * 16 + (← hexValue? b)) * 16 + (← hexValue? c)) * 16 + (← hexValue? d)

/-- Blames four bytes that are not hexadecimal digits, or the lack of four bytes. -/
def noUnit (s : List Char) : Fault :=
  if byteLength s < 4 then .before .endInString [] else ⟨.invalidEscape, byteLength s - 4⟩

/-- The code unit that a text begins with. -/
def readUnit (s : List Char) : Except Fault (Nat × List Char) :=
  match s with
  | a :: b :: c :: d :: rest =>
      match unit? a b c d with
      | some unit => .ok (unit, rest)
      | none => .error (noUnit s)
  | _ => .error (noUnit s)

def IsHighSurrogate (unit : Nat) : Prop := 0xD800 ≤ unit ∧ unit ≤ 0xDBFF

def IsLowSurrogate (unit : Nat) : Prop := 0xDC00 ≤ unit ∧ unit ≤ 0xDFFF

instance (unit : Nat) : Decidable (IsHighSurrogate unit) :=
  inferInstanceAs (Decidable (_ ∧ _))

instance (unit : Nat) : Decidable (IsLowSurrogate unit) :=
  inferInstanceAs (Decidable (_ ∧ _))

/-- The character of a pair of surrogates. -/
def pair (high low : Nat) : Char :=
  Char.ofNat (0x10000 + (high - 0xD800) * 0x400 + (low - 0xDC00))

/-- The second half of a pair of surrogates, and so the character they give. -/
def readLow (high : Nat) : List Char → Except Fault (Char × List Char)
  | [] => .error (.on .endInString [])
  | ['\\'] => .error (.on .endInString [])
  | '\\' :: 'u' :: digits =>
      match readUnit digits with
      | .error fault => .error fault
      | .ok (low, rest) =>
          if IsLowSurrogate low then .ok (pair high low, rest)
          else .error (.before .loneSurrogate rest)
  | '\\' :: rest => .error (.on .unfinishedPair rest)
  | rest => .error (.on .unfinishedPair rest)

/-- The character that an escape stands for, its backslash already taken off. -/
def readEscape : List Char → Except Fault (Char × List Char)
  | [] => .error (.on .endInString [])
  | 'u' :: digits =>
      match readUnit digits with
      | .error fault => .error fault
      | .ok (unit, rest) =>
          if IsLowSurrogate unit then .error (.before .loneSurrogate rest)
          else if IsHighSurrogate unit then readLow unit rest
          else .ok (Char.ofNat unit, rest)
  | c :: rest =>
      match shortEscape? c with
      | some char => .ok (char, rest)
      | none => .error (.on .invalidEscape (c :: rest))

theorem readUnit_length {s rest : List Char} {unit : Nat} (h : readUnit s = .ok (unit, rest)) :
    rest.length < s.length := by
  unfold readUnit at h
  split at h
  · split at h
    · simp only [Except.ok.injEq, Prod.mk.injEq] at h
      rw [← h.2]
      simp only [List.length_cons]
      omega
    · cases h
  · cases h

theorem readLow_length {high : Nat} {s rest : List Char} {c : Char}
    (h : readLow high s = .ok (c, rest)) : rest.length < s.length := by
  unfold readLow at h
  split at h
  · cases h
  · cases h
  · split at h
    · cases h
    · rename_i digits _ low rest' hunit
      split at h
      · simp only [Except.ok.injEq, Prod.mk.injEq] at h
        have := readUnit_length hunit
        rw [← h.2]
        simp only [List.length_cons]
        omega
      · cases h
  · cases h
  · cases h

theorem readEscape_length {s rest : List Char} {c : Char} (h : readEscape s = .ok (c, rest)) :
    rest.length < s.length := by
  unfold readEscape at h
  split at h
  · cases h
  · split at h
    · cases h
    · rename_i digits _ unit rest' hunit
      have hlength := readUnit_length hunit
      simp only [List.length_cons]
      split at h
      · cases h
      · split at h
        · have := readLow_length h
          omega
        · simp only [Except.ok.injEq, Prod.mk.injEq] at h
          rw [← h.2]
          omega
  · split at h
    · simp only [Except.ok.injEq, Prod.mk.injEq] at h
      rw [← h.2]
      simp
    · cases h

/-- The characters up to the closing quote, the opening one already taken off. -/
@[semireducible] def read (s : List Char) : Except Fault (List Char × List Char) :=
  match s with
  | [] => .error (.on .endInString [])
  | c :: rest =>
      if c = '"' then .ok ([], rest)
      else if c = '\\' then
        match _h : readEscape rest with
        | .error fault => .error fault
        | .ok (char, rest') =>
            match read rest' with
            | .error fault => .error fault
            | .ok (chars, rest'') => .ok (char :: chars, rest'')
      else if c.toNat < 0x20 then .error (.on .controlCharacter (c :: rest))
      else
        match read rest with
        | .error fault => .error fault
        | .ok (chars, rest') => .ok (c :: chars, rest')
termination_by s.length
decreasing_by
  · have := readEscape_length _h
    simp only [List.length_cons]
    omega
  · simp

example : read ['h', '\\', 'u', '0', '0', '6', '9', '"', '!'] = .ok (['h', 'i'], ['!']) := rfl

theorem read_length {s chars rest : List Char} (h : read s = .ok (chars, rest)) :
    rest.length < s.length := by
  fun_induction read s generalizing chars with
  | case1 => cases h
  | case2 => simp_all
  | case3 => cases h
  | case4 => cases h
  | case5 =>
      rename_i hescape _ _ hread _ ih
      simp only [Except.ok.injEq, Prod.mk.injEq] at h
      have hlength := ih (h.2 ▸ hread)
      have hescaped := readEscape_length hescape
      simp only [List.length_cons]
      omega
  | case6 => cases h
  | case7 => cases h
  | case8 =>
      rename_i chars' rest'' hread ih
      simp only [Except.ok.injEq, Prod.mk.injEq] at h
      have hlength := ih (h.2 ▸ hread)
      simp only [List.length_cons]
      omega

/-- A whole string, the opening quote already taken off. -/
def readString (s : List Char) : Except Fault (String × List Char) :=
  (read s).map fun (chars, rest) => (String.ofList chars, rest)

theorem readString_length {s rest : List Char} {value : String}
    (h : readString s = .ok (value, rest)) : rest.length < s.length := by
  unfold readString at h
  cases hread : read s with
  | error fault => simp [hread, Except.map] at h
  | ok result =>
      simp only [hread, Except.map, Except.ok.injEq, Prod.mk.injEq] at h
      exact h.2 ▸ read_length hread

end Quoted

end JsxProvenance
