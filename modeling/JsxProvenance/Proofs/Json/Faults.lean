import JsxProvenance.Proofs.Json.Soundness
import Mathlib.Data.List.DropRight

/-!
Faults lie inside the text that they are found in. A fault counts the bytes behind it, and
no reader counts more of them than the text has; so what stands in front of a text changes
the place of a fault and nothing else. There is one bound for each reader, of what it leaves
when it succeeds and of its faults at once. The place of a fault moves down by the lines that
come in front, and to the right only if it was on the first line.

Main statements: `Json.left_le_of_parse` and `Fault.place_append`.
-/

namespace JsxProvenance

section Bytes

theorem byteLength_le_of_suffix {s t : List Char} (h : s <:+ t) : byteLength s ≤ byteLength t := by
  obtain ⟨before, rfl⟩ := h
  rw [byteLength_append]
  exact Nat.le_add_left _ _

theorem byteLength_le_cons (c : Char) (s : List Char) : byteLength s ≤ byteLength (c :: s) :=
  byteLength_le_of_suffix (List.suffix_cons c s)

theorem length_le_byteLength (s : List Char) : s.length ≤ byteLength s := by
  induction s with
  | nil => exact Nat.le_refl 0
  | cons c rest ih =>
      have hpos := c.utf8Size_pos
      simp only [List.length_cons, byteLength]
      omega

theorem byteLength_skipBlanks_le (s : List Char) : byteLength (skipBlanks s) ≤ byteLength s :=
  byteLength_le_of_suffix (List.dropWhile_suffix isBlank)

end Bytes

/-- The bytes behind what was taken off the front of a text, or behind the fault found there. -/
def bytesLeft {α : Type} : Except Fault (α × List Char) → Nat
  | .ok (_, rest) => byteLength rest
  | .error fault => fault.left

section Left

variable {α β : Type}

@[simp] theorem bytesLeft_ok (a : α) (rest : List Char) :
    bytesLeft (.ok (a, rest)) = byteLength rest := rfl

@[simp] theorem bytesLeft_map (f : α → β) (result : Except Fault (α × List Char)) :
    bytesLeft (result.map (Prod.map f id)) = bytesLeft result := by
  cases result <;> rfl

theorem left_le_of_error {result : Except Fault (α × List Char)} {fault : Fault} {bound : Nat}
    (h : bytesLeft result ≤ bound) (hfault : result = .error fault) : fault.left ≤ bound := by
  rwa [hfault] at h

theorem rest_le_of_ok {result : Except Fault (α × List Char)} {a : α} {rest : List Char}
    {bound : Nat} (h : bytesLeft result ≤ bound) (hok : result = .ok (a, rest)) :
    byteLength rest ≤ bound := by
  rwa [hok] at h

/-- Two readers in a row keep to a bound that both of them keep to. -/
theorem bytesLeft_bind_le {action : Except Fault (α × List Char)}
    {next : α × List Char → Except Fault (β × List Char)} {bound : Nat}
    (haction : bytesLeft action ≤ bound)
    (hnext : ∀ a rest, action = .ok (a, rest) → byteLength rest ≤ bound →
      bytesLeft (next (a, rest)) ≤ bound) :
    bytesLeft (action >>= next) ≤ bound := by
  cases action with
  | error fault => exact haction
  | ok pair => exact hnext pair.1 pair.2 rfl haction

theorem Fault.left_on_le (flaw : Flaw) (rest : List Char) :
    (Fault.on flaw rest).left ≤ byteLength rest :=
  Nat.sub_le _ _

end Left

namespace Quoted

theorem left_noUnit_le (s : List Char) : (noUnit s).left ≤ byteLength s := by
  unfold noUnit
  split
  · exact Nat.zero_le _
  · exact Nat.sub_le _ _

theorem bytesLeft_readUnit_le (s : List Char) : bytesLeft (readUnit s) ≤ byteLength s := by
  unfold readUnit
  split
  · rename_i a b c d rest
    split
    · exact byteLength_le_of_suffix ⟨[a, b, c, d], rfl⟩
    · exact left_noUnit_le _
  · exact left_noUnit_le s

theorem bytesLeft_readLow_le (high : Nat) (s : List Char) :
    bytesLeft (readLow high s) ≤ byteLength s := by
  unfold readLow
  split
  · exact Fault.left_on_le _ _
  · exact Nat.zero_le _
  · rename_i digits
    have hdigits : byteLength digits ≤ byteLength ('\\' :: 'u' :: digits) :=
      byteLength_le_of_suffix ⟨['\\', 'u'], rfl⟩
    have hunit := Nat.le_trans (bytesLeft_readUnit_le digits) hdigits
    split
    · rename_i fault hfault
      exact left_le_of_error hunit hfault
    · rename_i low rest hlow
      have hrest := rest_le_of_ok hunit hlow
      split
      · rwa [bytesLeft_ok]
      · exact hrest
  · rename_i rest _ _
    exact Nat.le_trans (Fault.left_on_le _ rest) (byteLength_le_cons _ rest)
  · exact Fault.left_on_le _ _

theorem bytesLeft_readEscape_le (s : List Char) : bytesLeft (readEscape s) ≤ byteLength s := by
  unfold readEscape
  split
  · exact Fault.left_on_le _ _
  · rename_i digits
    have hunit := Nat.le_trans (bytesLeft_readUnit_le digits) (byteLength_le_cons 'u' digits)
    split
    · rename_i fault hfault
      exact left_le_of_error hunit hfault
    · rename_i unit rest hread
      have hrest := rest_le_of_ok hunit hread
      split
      · exact hrest
      split
      · exact Nat.le_trans (bytesLeft_readLow_le unit rest) hrest
      · rwa [bytesLeft_ok]
  · rename_i c rest _
    split
    · exact byteLength_le_cons c rest
    · exact Fault.left_on_le _ _

theorem bytesLeft_read_le (s : List Char) : bytesLeft (read s) ≤ byteLength s := by
  fun_induction read s with
  | case1 => exact Fault.left_on_le _ _
  | case2 rest => exact byteLength_le_cons '"' rest
  | case3 rest fault hfault =>
      have hescape := left_le_of_error (bytesLeft_readEscape_le rest) hfault
      exact Nat.le_trans hescape (byteLength_le_cons _ rest)
  | case4 rest char left hchar fault hfault _ ih =>
      have hescape := rest_le_of_ok (bytesLeft_readEscape_le rest) hchar
      have hleft := Nat.le_trans hescape (byteLength_le_cons '\\' rest)
      exact Nat.le_trans (left_le_of_error ih hfault) hleft
  | case5 rest char left hchar chars behind hread _ ih =>
      have hescape := rest_le_of_ok (bytesLeft_readEscape_le rest) hchar
      have hleft := Nat.le_trans hescape (byteLength_le_cons '\\' rest)
      exact Nat.le_trans (rest_le_of_ok ih hread) hleft
  | case6 => exact Fault.left_on_le _ _
  | case7 c rest _ _ _ fault hfault ih =>
      exact Nat.le_trans (left_le_of_error ih hfault) (byteLength_le_cons c rest)
  | case8 c rest _ _ _ chars behind hread ih =>
      exact Nat.le_trans (rest_le_of_ok ih hread) (byteLength_le_cons c rest)

theorem bytesLeft_readString_le (s : List Char) : bytesLeft (readString s) ≤ byteLength s := by
  have hread := bytesLeft_read_le s
  unfold readString
  cases h : read s with
  | error fault =>
      rw [h] at hread
      exact hread
  | ok pair =>
      rw [h] at hread
      exact hread

end Quoted

namespace Numeral

theorem left_noDigit_le (s : List Char) : (noDigit s).left ≤ byteLength s :=
  Fault.left_on_le _ s

theorem bytesLeft_readDigits_le (s : List Char) : bytesLeft (readDigits s) ≤ byteLength s := by
  unfold readDigits
  split
  · exact left_noDigit_le s
  · exact byteLength_le_of_suffix (List.dropWhile_suffix _)

theorem bytesLeft_readWhole_le (s : List Char) : bytesLeft (readWhole s) ≤ byteLength s := by
  unfold readWhole
  split
  · rename_i next rest
    split
    · exact Nat.le_trans (Fault.left_on_le _ (next :: rest)) (byteLength_le_cons _ _)
    · exact byteLength_le_cons '0' (next :: rest)
  · exact bytesLeft_readDigits_le s

theorem bytesLeft_readFraction_le (s : List Char) :
    bytesLeft (readFraction s) ≤ byteLength s := by
  unfold readFraction
  split
  · rename_i rest
    exact Nat.le_trans (bytesLeft_readDigits_le rest) (byteLength_le_cons '.' rest)
  · exact Nat.le_refl _

theorem byteLength_readSign_le (s : List Char) : byteLength (readSign s).2 ≤ byteLength s := by
  unfold readSign
  split
  · exact byteLength_le_cons _ _
  · exact byteLength_le_cons _ _
  · exact Nat.le_refl _

theorem bytesLeft_readExponent_le (s : List Char) :
    bytesLeft (readExponent s) ≤ byteLength s := by
  unfold readExponent
  split
  · rename_i c rest
    split
    · have hsign := Nat.le_trans (byteLength_readSign_le rest) (byteLength_le_cons c rest)
      have hdigits := Nat.le_trans (bytesLeft_readDigits_le (readSign rest).2) hsign
      split
      · rename_i digits behind hread
        exact rest_le_of_ok hdigits hread
      · rename_i fault hfault
        exact left_le_of_error hdigits hfault
    · exact Nat.le_refl _
  · exact Nat.le_refl _

theorem bytesLeft_read_le (negative : Bool) (s : List Char) :
    bytesLeft (read negative s) ≤ byteLength s := by
  unfold read
  apply bytesLeft_bind_le (bytesLeft_readWhole_le s)
  intro whole afterWhole _ hwhole
  apply bytesLeft_bind_le (Nat.le_trans (bytesLeft_readFraction_le afterWhole) hwhole)
  intro fraction afterFraction _ hfraction
  apply bytesLeft_bind_le (Nat.le_trans (bytesLeft_readExponent_le afterFraction) hfraction)
  intro exponent rest _ hexponent
  exact hexponent

theorem absorb_suffix (limit value : Nat) (s : List Char) :
    (absorb limit value s).2 <:+ s := by
  fun_induction absorb limit value s with
  | case1 => exact List.suffix_rfl
  | case2 value c rest _ ih => exact ih.trans (List.suffix_cons c rest)
  | case3 => exact List.suffix_rfl

/-- What a number out of range leaves unread are digits of its exponent. -/
theorem unread_le_of_value {numeral : Numeral} {unread : Nat}
    (h : numeral.value = .error unread) :
    unread = 0 ∨ ∃ exponent, numeral.exponent = some exponent ∧
      unread ≤ exponent.digits.length := by
  unfold value at h
  split at h
  rename_i whole dropped _
  split at h
  rename_i significand ignored _
  extract_lets scale scaledBy at h
  have hscaled : ∀ power, scaledBy power = .error unread → unread = 0 := by
    intro power herror
    simp only [scaledBy] at herror
    split at herror
    · cases herror
    · cases herror
      rfl
  split at h
  · split at h
    · split at h
      · cases h
      · exact Or.inl (hscaled 0 h)
    · exact Or.inl (hscaled 0 h)
  · rename_i exponent hexponent
    split at h
    · exact Or.inl (hscaled _ h)
    · rename_i power c rest habsorb
      split at h
      · cases h
        have hsuffix := absorb_suffix exponentLimit 0 exponent.digits
        rw [habsorb] at hsuffix
        have hlength := hsuffix.length_le
        simp only [List.length_cons] at hlength
        exact Or.inr ⟨exponent, hexponent, by omega⟩
      · cases h

theorem digits_length_le_of_exponentText {exponent : Exponent} {text : List Char}
    (h : ExponentText (some exponent) text) : exponent.digits.length ≤ byteLength text := by
  have hbytes := length_le_byteLength text
  cases h with
  | unsigned | positive | negative =>
      simp only [List.length_cons] at hbytes
      simp only
      omega

/-- A numeral is not shorter than the digits that were not needed. -/
theorem unread_le_of_read {negative : Bool} {s rest : List Char} {numeral : Numeral} {unread : Nat}
    (hread : read negative s = .ok (numeral, rest)) (hvalue : numeral.value = .error unread) :
    byteLength rest + unread ≤ byteLength s := by
  obtain ⟨whole, afterWhole, fraction, afterFraction, exponent, hwhole, hfraction, hexponent,
    rfl⟩ := exists_parts_of_read hread
  have hafterWhole := rest_le_of_ok (bytesLeft_readWhole_le s) hwhole
  have hafterFraction := rest_le_of_ok (bytesLeft_readFraction_le afterWhole) hfraction
  have hrest := rest_le_of_ok (bytesLeft_readExponent_le afterFraction) hexponent
  rcases unread_le_of_value hvalue with rfl | ⟨parts, hparts, hunread⟩
  · omega
  · obtain rfl : exponent = some parts := hparts
    obtain ⟨text, htext, hsplit⟩ := exists_text_of_readExponent hexponent
    have hdigits := digits_length_le_of_exponentText htext
    have hbytes : byteLength afterFraction = byteLength text + byteLength rest := by
      rw [hsplit, byteLength_append]
    omega

theorem bytesLeft_readNumber_le (negative : Bool) (s : List Char) :
    bytesLeft (readNumber negative s) ≤ byteLength s := by
  unfold readNumber
  apply bytesLeft_bind_le (bytesLeft_read_le negative s)
  intro numeral rest hread hrest
  cases hvalue : numeral.value with
  | ok number =>
      simp only [hvalue]
      exact hrest
  | error unread =>
      simp only [hvalue]
      exact unread_le_of_read hread hvalue

end Numeral

section Blanks

variable {s rest : List Char} {c : Char}

theorem byteLength_le_of_skipBlanks (h : skipBlanks s = c :: rest) :
    byteLength (c :: rest) ≤ byteLength s := by
  have hskip := byteLength_skipBlanks_le s
  rwa [h] at hskip

theorem byteLength_behind_le (h : skipBlanks s = c :: rest) :
    byteLength rest ≤ byteLength s :=
  Nat.le_trans (byteLength_le_cons c rest) (byteLength_le_of_skipBlanks h)

theorem byteLength_skipBlanks_behind_le (h : skipBlanks s = c :: rest) :
    byteLength (skipBlanks rest) ≤ byteLength s :=
  Nat.le_trans (byteLength_skipBlanks_le rest) (byteLength_behind_le h)

end Blanks

/-- The reader neither leaves more than the text that it is given, nor finds faults outside it. -/
def Reader.Bounded {α : Type} (reader : Reader α) : Prop :=
  ∀ s, bytesLeft (reader.read s) ≤ byteLength s

namespace Bracket

variable {α : Type} {bracket : Bracket} {item : Reader α}

section Series

variable (hitem : item.Bounded)
include hitem

/-- Each item is read from what the comma before it leaves. -/
theorem bytesLeft_readMore_le (s : List Char) :
    bytesLeft (readMore bracket item s) ≤ byteLength s := by
  fun_induction readMore bracket item s with
  | case1 => exact Nat.zero_le _
  | case2 s rest hs => exact byteLength_behind_le hs
  | case3 s rest _ hs =>
      exact Nat.le_trans (Fault.left_on_le _ _) (byteLength_skipBlanks_behind_le hs)
  | case4 s rest _ fault hfault hs =>
      have hread := left_le_of_error (hitem (skipBlanks rest)) hfault
      exact Nat.le_trans hread (byteLength_skipBlanks_behind_le hs)
  | case5 s rest _ a next hnext fault hfault hs _ ih =>
      have hread := rest_le_of_ok (hitem (skipBlanks rest)) hnext
      have hbound := Nat.le_trans hread (byteLength_skipBlanks_behind_le hs)
      exact Nat.le_trans (left_le_of_error ih hfault) hbound
  | case6 s rest _ a next hnext more left hmore hs _ ih =>
      have hread := rest_le_of_ok (hitem (skipBlanks rest)) hnext
      have hbound := Nat.le_trans hread (byteLength_skipBlanks_behind_le hs)
      exact Nat.le_trans (rest_le_of_ok ih hmore) hbound
  | case7 s c rest hs =>
      exact Nat.le_trans (Fault.left_on_le _ _) (byteLength_le_of_skipBlanks hs)

theorem bytesLeft_read_le (s : List Char) : bytesLeft (bracket.read item s) ≤ byteLength s := by
  unfold Bracket.read
  split
  · exact Nat.zero_le _
  · rename_i c rest hs
    have hskip := byteLength_le_of_skipBlanks hs
    split
    · exact byteLength_behind_le hs
    split
    · rename_i fault hfault
      exact Nat.le_trans (left_le_of_error (hitem _) hfault) hskip
    · rename_i a next hnext
      have hmore : bytesLeft (bracket.readMore item next) ≤ byteLength next :=
        bytesLeft_readMore_le hitem next
      have hread := Nat.le_trans (rest_le_of_ok (hitem _) hnext) hskip
      split
      · rename_i fault hfault
        exact Nat.le_trans (left_le_of_error hmore hfault) hread
      · rename_i more left hleft
        exact Nat.le_trans (rest_le_of_ok hmore hleft) hread

end Series

end Bracket

namespace Json

theorem bytesLeft_readWord_le (v : Json) (letters s : List Char) :
    bytesLeft ((readWord letters s).map (v, ·)) ≤ byteLength s := by
  fun_induction readWord letters s with
  | case1 s => exact Nat.le_refl _
  | case2 => exact Nat.zero_le _
  | case3 letters c rest ih => exact Nat.le_trans ih (byteLength_le_cons c rest)
  | case4 => exact Fault.left_on_le _ _

theorem bounded_memberReader {value : Reader Json} (hvalue : value.Bounded) :
    (memberReader value).Bounded := by
  intro s
  change bytesLeft (readMember value s) ≤ byteLength s
  unfold readMember
  split
  · exact Nat.zero_le _
  · rename_i c rest
    split
    · have hstring : bytesLeft (Quoted.readString rest) ≤ byteLength (c :: rest) :=
        Nat.le_trans (Quoted.bytesLeft_readString_le rest) (byteLength_le_cons c rest)
      split
      · rename_i fault hfault
        exact left_le_of_error hstring hfault
      · rename_i key afterKey hkey
        have hafterKey := rest_le_of_ok hstring hkey
        have hskip := Nat.le_trans (byteLength_skipBlanks_le afterKey) hafterKey
        split
        · exact Nat.zero_le _
        · rename_i afterColon hcolon
          have hafterColon := Nat.le_trans (byteLength_behind_le hcolon) hafterKey
          split
          · rename_i fault hfault
            exact Nat.le_trans (left_le_of_error (hvalue _) hfault) hafterColon
          · rename_i v left hleft
            exact Nat.le_trans (rest_le_of_ok (hvalue _) hleft) hafterColon
        · exact Nat.le_trans (Fault.left_on_le _ _) hskip
    · exact Fault.left_on_le _ _

theorem bytesLeft_readWith_le {nested : Option (Reader Json)}
    (hnested : ∀ value ∈ nested, value.Bounded) (s : List Char) :
    bytesLeft (readWith nested s) ≤ byteLength s := by
  unfold readWith
  split
  · exact Nat.zero_le _
  rename_i c rest hs
  have hwhole : byteLength (c :: rest) ≤ byteLength s := byteLength_le_of_skipBlanks hs
  have hrest : byteLength rest ≤ byteLength s := byteLength_behind_le hs
  split
  · exact Nat.le_trans (bytesLeft_readWord_le _ _ rest) hrest
  split
  · exact Nat.le_trans (bytesLeft_readWord_le _ _ rest) hrest
  split
  · exact Nat.le_trans (bytesLeft_readWord_le _ _ rest) hrest
  split
  · rw [bytesLeft_map]
    exact Nat.le_trans (Numeral.bytesLeft_readNumber_le true rest) hrest
  split
  · rw [bytesLeft_map]
    exact Nat.le_trans (Numeral.bytesLeft_readNumber_le false (c :: rest)) hwhole
  split
  · rw [bytesLeft_map]
    exact Nat.le_trans (Quoted.bytesLeft_readString_le rest) hrest
  split
  · cases nested with
    | none => exact Nat.le_trans (Fault.left_on_le _ _) hwhole
    | some value =>
        simp only [bytesLeft_map]
        exact Nat.le_trans (Bracket.bytesLeft_read_le (hnested value rfl) rest) hrest
  split
  · cases nested with
    | none => exact Nat.le_trans (Fault.left_on_le _ _) hwhole
    | some value =>
        have hmember := bounded_memberReader (hnested value rfl)
        simp only [bytesLeft_map]
        exact Nat.le_trans (Bracket.bytesLeft_read_le hmember rest) hrest
  · exact Nat.le_trans (Fault.left_on_le _ _) hwhole

theorem bounded_reader (depth : Nat) : (reader depth).Bounded := by
  induction depth with
  | zero =>
      intro s
      rw [reader_zero]
      exact bytesLeft_readWith_le (by simp) s
  | succ depth ih =>
      intro s
      rw [reader_succ]
      apply bytesLeft_readWith_le
      rintro value ⟨⟩
      exact ih

/-- A fault lies inside the text, or at its end. -/
theorem left_le_of_parse {text : List Char} {fault : Fault} (h : parse text = .error fault) :
    fault.left ≤ byteLength text := by
  have hreader := bounded_reader deepest text
  unfold parse parseWithin at h
  split at h
  · rename_i fault' hfault
    cases h
    exact left_le_of_error hreader hfault
  · rename_i value rest hread
    split at h
    · cases h
    · cases h
      have hskip := Nat.le_trans (byteLength_skipBlanks_le rest) (rest_le_of_ok hreader hread)
      exact Nat.le_trans (Fault.left_on_le _ _) hskip

/-- Faults count the bytes behind them, so blanks in front of a text do not change them. -/
theorem parse_blanks {before : List Char} (h : Blanks before) (text : List Char) :
    parse (before ++ text) = parse text := by
  rw [parse, parse, parseWithin, parseWithin, reader_blanks deepest text h]

end Json

namespace Place

theorem after_append (place : Place) (before text : List Char) (bytes : Nat) :
    place.after (before ++ text) (byteLength before + bytes) =
      (before.foldl advance place).after text bytes := by
  induction before generalizing place with
  | nil => simp [byteLength]
  | cons c rest ih =>
      have hfits : c.utf8Size ≤ byteLength (c :: rest) + bytes := by
        rw [byteLength]
        omega
      have hleft : byteLength (c :: rest) + bytes - c.utf8Size = byteLength rest + bytes := by
        rw [byteLength]
        omega
      rw [List.cons_append, after, if_pos hfits, hleft, ih, List.foldl_cons]

/-- A text ends as many lines below its start as it has line feeds, in a column behind all
that follows the last of them. -/
theorem foldl_advance_start (text : List Char) :
    text.foldl advance start =
      ⟨1 + text.count '\n', byteLength (text.rtakeWhile (· ≠ '\n'))⟩ := by
  induction text using List.reverseRecOn with
  | nil => rfl
  | append_singleton text c ih =>
      rw [List.foldl_append, ih, List.rtakeWhile_concat, List.count_append]
      by_cases hc : c = '\n'
      · simp [hc, advance, byteLength, Nat.add_assoc]
      · simp [hc, advance, byteLength]

/-- A place in a text that itself begins at `origin`. -/
def within (origin place : Place) : Place :=
  ⟨place.line + origin.line - 1,
    if place.line = 1 then origin.column + place.column else place.column⟩

theorem within_start (origin : Place) : origin.within start = origin := by
  simp [within, start]

theorem within_advance (origin : Place) {place : Place} (h : 1 ≤ place.line) (c : Char) :
    origin.within (place.advance c) = (origin.within place).advance c := by
  by_cases hc : c = '\n'
  · have hline : place.line + 1 + origin.line - 1 = place.line + origin.line - 1 + 1 := by omega
    have hfirst : place.line ≠ 0 := by omega
    simp [within, advance, hc, hline, hfirst]
  · by_cases hfirst : place.line = 1
    · simp [within, advance, hc, hfirst, Nat.add_assoc]
    · simp [within, advance, hc, hfirst]

theorem within_after (origin : Place) {place : Place} (h : 1 ≤ place.line) (text : List Char)
    (bytes : Nat) :
    origin.within (place.after text bytes) = (origin.within place).after text bytes := by
  induction text generalizing place bytes with
  | nil => rfl
  | cons c rest ih =>
      rw [after, after]
      split
      · have hline : 1 ≤ (place.advance c).line := by
          unfold advance
          split
          · exact Nat.le_add_left 1 place.line
          · exact h
        rw [ih hline, within_advance origin h]
      · by_cases hfirst : place.line = 1
        · simp [within, hfirst, Nat.add_assoc]
        · simp [within, hfirst]

end Place

/-- What stands in front of a text moves the places of its faults. -/
theorem Fault.place_append {text : List Char} {fault : Fault}
    (h : fault.left ≤ byteLength text) (before : List Char) :
    fault.place (before ++ text) =
      (before.foldl Place.advance Place.start).within (fault.place text) := by
  have hbytes : byteLength (before ++ text) - fault.left =
      byteLength before + (byteLength text - fault.left) := by
    rw [byteLength_append]
    omega
  rw [Fault.place, hbytes, Place.after_append, Fault.place,
    Place.within_after _ (Nat.le_refl 1), Place.within_start]

end JsxProvenance
