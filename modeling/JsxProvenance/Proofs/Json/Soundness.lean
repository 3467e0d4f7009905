import JsxProvenance.Proofs.Json.Completeness
import Mathlib.Data.List.TakeWhile

/-!
Nothing but the texts of the grammar is read. Whatever a reader takes off the front of a
text is a text of the grammar, of the value that the reader gives; so a text that is read
to its end is a document. There is one lemma for each reader, and it inverts the reader:
from what came out, it gives the pieces that went in. For series between brackets the
inversion is done once, for arrays and objects alike, and values go by induction on the
depth.

Main statement: `Json.parse_eq_ok_iff`, which also has the other direction: the reader and
the grammar agree on every text, and so no text has two values.
-/

namespace JsxProvenance

theorem exists_blanks (s : List Char) : ∃ before, Blanks before ∧ s = before ++ skipBlanks s :=
  ⟨s.takeWhile isBlank, fun _ member => List.mem_takeWhile_imp member,
    List.takeWhile_append_dropWhile.symm⟩

theorem Blanks.append {s t : List Char} (hs : Blanks s) (ht : Blanks t) : Blanks (s ++ t) := by
  intro c member
  rcases List.mem_append.mp member with hc | hc
  · exact hs c hc
  · exact ht c hc

namespace Quoted

theorem exists_unitText_of_readUnit {s rest : List Char} {unit : Nat}
    (h : readUnit s = .ok (unit, rest)) :
    ∃ digits, UnitText unit digits ∧ s = digits ++ rest := by
  unfold readUnit at h
  split at h
  · rename_i p q r t rest'
    split at h
    · rename_i value hvalue
      cases h
      exact ⟨[p, q, r, t], unit?_eq_some_iff.mp hvalue, rfl⟩
    · cases h
  · cases h

/-- The second half of a pair is a low surrogate in an escape of its own. -/
theorem exists_unitText_of_readLow {high : Nat} {s rest : List Char} {c : Char}
    (h : readLow high s = .ok (c, rest)) :
    ∃ digits low, UnitText low digits ∧ IsLowSurrogate low ∧ c = pair high low ∧
      s = '\\' :: 'u' :: digits ++ rest := by
  unfold readLow at h
  split at h
  · cases h
  · cases h
  · split at h
    · cases h
    · rename_i _ low rest' hunit
      split at h
      · rename_i hlow
        simp only [Except.ok.injEq, Prod.mk.injEq] at h
        obtain ⟨rfl, rfl⟩ := h
        obtain ⟨digits, hdigits, rfl⟩ := exists_unitText_of_readUnit hunit
        exact ⟨digits, low, hdigits, hlow, rfl, rfl⟩
      · cases h
  · cases h
  · cases h

theorem toNat_pair {high low : Nat} (hhigh : IsHighSurrogate high) (hlow : IsLowSurrogate low) :
    (pair high low).toNat = 0x10000 + (high - 0xD800) * 0x400 + (low - 0xDC00) := by
  simp only [IsHighSurrogate, IsLowSurrogate] at hhigh hlow
  exact toNat_ofNat (Or.inr (by omega))

theorem exists_spells_of_readEscape {s rest : List Char} {c : Char}
    (h : readEscape s = .ok (c, rest)) : ∃ text, Spells c ('\\' :: text) ∧ s = text ++ rest := by
  unfold readEscape at h
  split at h
  · cases h
  · split at h
    · cases h
    · rename_i _ unit rest' hunit
      obtain ⟨digits, hdigits, rfl⟩ := exists_unitText_of_readUnit hunit
      split at h
      · cases h
      · rename_i hlow
        split at h
        · rename_i hhigh
          obtain ⟨digits', low, hdigits', hlow', hc, rfl⟩ := exists_unitText_of_readLow h
          have hcode := toNat_pair hhigh hlow'
          rw [← hc] at hcode
          exact ⟨_, .pair hdigits hdigits' hhigh hlow' hcode, by simp⟩
        · rename_i hhigh
          simp only [Except.ok.injEq, Prod.mk.injEq] at h
          obtain ⟨rfl, rfl⟩ := h
          have hcode : (Char.ofNat unit).toNat = unit := by
            have hbound := unitText_lt hdigits
            simp only [IsHighSurrogate, IsLowSurrogate] at hhigh hlow
            exact toNat_ofNat (by omega)
          refine ⟨'u' :: digits, .unit ?_, rfl⟩
          rwa [hcode]
  · rename_i letter rest' _
    split at h
    · rename_i char hchar
      cases h
      exact ⟨[letter], .short (shortEscape?_eq_some_iff.mp hchar), rfl⟩
    · cases h

/-- What is read up to the closing quote spells the characters that are read, one by one. -/
theorem exists_body_of_read {s chars rest : List Char} (h : read s = .ok (chars, rest)) :
    ∃ text, Body chars text ∧ s = text ++ '"' :: rest := by
  fun_induction read s generalizing chars with
  | case1 => cases h
  | case2 =>
      cases h
      exact ⟨[], .nil, rfl⟩
  | case3 => cases h
  | case4 => cases h
  | case5 s char behind hescape more left hread _ ih =>
      cases h
      obtain ⟨spelling, hspells, rfl⟩ := exists_spells_of_readEscape hescape
      obtain ⟨text, hbody, rfl⟩ := ih hread
      exact ⟨_, .cons hspells hbody, by simp⟩
  | case6 => cases h
  | case7 => cases h
  | case8 c s hquote hbackslash hcontrol more left hread ih =>
      cases h
      obtain ⟨text, hbody, rfl⟩ := ih hread
      have hplain : Plain c := ⟨hquote, hbackslash, Nat.not_lt.mp hcontrol⟩
      exact ⟨_, .cons (.plain hplain) hbody, rfl⟩

theorem exists_literal_of_readString {s rest : List Char} {value : String}
    (h : readString s = .ok (value, rest)) :
    ∃ text, Literal value text ∧ '"' :: s = text ++ rest := by
  unfold readString at h
  cases hread : read s with
  | error fault =>
      rw [hread] at h
      cases h
  | ok result =>
      rw [hread] at h
      cases h
      obtain ⟨text, hbody, rfl⟩ := exists_body_of_read hread
      exact ⟨_, .quoted hbody, by simp⟩

end Quoted

namespace Numeral

theorem digits_of_readDigits {s digits rest : List Char}
    (h : readDigits s = .ok (digits, rest)) : Digits digits ∧ s = digits ++ rest := by
  unfold readDigits at h
  split at h
  · cases h
  · rename_i hne
    cases h
    exact ⟨⟨hne, fun _ member => List.mem_takeWhile_imp member⟩,
      List.takeWhile_append_dropWhile.symm⟩

theorem wholeDigits_of_readWhole {s whole rest : List Char}
    (h : readWhole s = .ok (whole, rest)) : WholeDigits whole ∧ s = whole ++ rest := by
  unfold readWhole at h
  split at h
  · rename_i next more
    split at h
    · cases h
    · cases h
      exact ⟨⟨⟨by simp, by simp⟩, fun _ => rfl⟩, rfl⟩
  · rename_i hsplit
    obtain ⟨hdigits, rfl⟩ := digits_of_readDigits h
    refine ⟨⟨hdigits, ?_⟩, rfl⟩
    -- a text that begins with a zero comes here only if it is that zero
    intro hzero
    obtain ⟨c, more, rfl, hc⟩ := exists_digit hdigits
    obtain rfl := Option.some.inj hzero
    cases hmore : more ++ rest with
    | nil => rw [(List.append_eq_nil_iff.mp hmore).1]
    | cons next left => exact absurd (congrArg (List.cons '0') hmore) (hsplit next left)

theorem exists_text_of_readFraction {s fraction rest : List Char}
    (h : readFraction s = .ok (fraction, rest)) :
    ∃ text, FractionText fraction text ∧ s = text ++ rest := by
  unfold readFraction at h
  split at h
  · obtain ⟨hdigits, rfl⟩ := digits_of_readDigits h
    exact ⟨_, .present hdigits, rfl⟩
  · cases h
    exact ⟨[], .absent, rfl⟩

theorem exists_text_of_readExponent {s rest : List Char} {exponent : Option Exponent}
    (h : readExponent s = .ok (exponent, rest)) :
    ∃ text, ExponentText exponent text ∧ s = text ++ rest := by
  unfold readExponent at h
  split at h
  · rename_i mark behind
    split at h
    · rename_i hmark
      split at h
      · rename_i digits left hread
        cases h
        obtain ⟨hdigits, hsplit⟩ := digits_of_readDigits hread
        unfold readSign at hsplit ⊢
        split at hsplit <;> subst hsplit
        · exact ⟨_, .negative hmark hdigits, rfl⟩
        · exact ⟨_, .positive hmark hdigits, rfl⟩
        · exact ⟨_, .unsigned hmark hdigits, rfl⟩
      · cases h
    · cases h
      exact ⟨[], .absent, rfl⟩
  · cases h
    exact ⟨[], .absent, rfl⟩

theorem exists_text_of_read {negative : Bool} {s rest : List Char} {numeral : Numeral}
    (h : read negative s = .ok (numeral, rest)) :
    ∃ text, Text numeral ((if negative then ['-'] else []) ++ text) ∧ s = text ++ rest := by
  obtain ⟨whole, afterWhole, fraction, afterFraction, exponent, hwhole, hfraction, hexponent,
    rfl⟩ := exists_parts_of_read h
  obtain ⟨hdigits, rfl⟩ := wholeDigits_of_readWhole hwhole
  obtain ⟨fractionText, hpoint, rfl⟩ := exists_text_of_readFraction hfraction
  obtain ⟨exponentText, hmark, rfl⟩ := exists_text_of_readExponent hexponent
  refine ⟨whole ++ fractionText ++ exponentText, ?_, ?_⟩
  · rw [← List.append_assoc, ← List.append_assoc]
    exact .mk hdigits hpoint hmark
  · rw [List.append_assoc, List.append_assoc]

theorem exists_text_of_readNumber {negative : Bool} {s rest : List Char} {number : Number}
    (h : readNumber negative s = .ok (number, rest)) :
    ∃ text, Json.Dialect.any.number number ((if negative then ['-'] else []) ++ text) ∧
      s = text ++ rest := by
  obtain ⟨numeral, hread, hvalue⟩ := exists_numeral_of_readNumber h
  obtain ⟨text, htext, rfl⟩ := exists_text_of_read hread
  exact ⟨text, ⟨numeral, htext, hvalue⟩, rfl⟩

end Numeral

/-- What the reader takes off the front of a text is a text of an item, with blanks before
it or none. -/
def Reader.Takes {α : Type} (reader : Reader α) (item : α → List Char → Prop) : Prop :=
  ∀ {s rest : List Char} {a : α}, reader.read s = .ok (a, rest) →
    ∃ before text, Blanks before ∧ item a text ∧ s = before ++ text ++ rest

namespace Bracket

variable {α : Type} {bracket : Bracket} {reader : Reader α} {item : α → List Char → Prop}

/-- A text that begins behind an item of a series: the items still to come, up to the
closing bracket, and what stands behind the bracket. -/
inductive Remainder (bracket : Bracket) (item : α → List Char → Prop) :
    List α → List Char → List Char → Prop
  | close {after rest : List Char} (hafter : Blanks after) :
      Remainder bracket item [] (after ++ bracket.close :: rest) rest
  | comma {items : List α} {after text rest : List Char} (hafter : Blanks after)
      (h : Json.Series item items text) :
      Remainder bracket item items (after ++ ',' :: (text ++ bracket.close :: rest)) rest

/-- An item with the remainder of its series behind it begins a series. -/
theorem Remainder.exists_series {items : List α} {s rest : List Char}
    (h : Remainder bracket item items s rest) {a : α} {before text : List Char}
    (hbefore : Blanks before) (hitem : item a text) :
    ∃ series, Json.Series item (a :: items) series ∧
      before ++ text ++ s = series ++ bracket.close :: rest := by
  cases h with
  | close hafter => exact ⟨_, .last hbefore hitem hafter, by simp⟩
  | comma hafter hothers => exact ⟨_, .cons hbefore hitem hafter hothers, by simp⟩

theorem remainder_of_readMore (hitem : reader.Takes item) {s rest : List Char} {items : List α}
    (h : readMore bracket reader s = .ok (items, rest)) :
    Remainder bracket item items s rest := by
  fun_induction readMore bracket reader s generalizing items with
  | case1 => cases h
  | case2 s behind hs =>
      cases h
      obtain ⟨after, hafter, hsplit⟩ := exists_blanks s
      rw [hsplit, hs]
      exact .close hafter
  | case3 => cases h
  | case4 => cases h
  | case5 => cases h
  | case6 =>
      rename_i s behind _ a next hread more left hmore hs _ ih
      cases h
      obtain ⟨after, hafter, hsplit⟩ := exists_blanks s
      obtain ⟨blanks, hblanks, hbehind⟩ := exists_blanks behind
      obtain ⟨before, text, hbefore, htext, hnext⟩ := hitem hread
      obtain ⟨series, hseries, hleft⟩ :=
        (ih hmore).exists_series (hblanks.append hbefore) htext
      have hwhole : behind = series ++ bracket.close :: rest := by
        rw [hbehind, hnext, ← hleft]
        simp only [List.append_assoc]
      rw [hsplit, hs, hwhole]
      exact .comma hafter hseries
  | case7 => cases h

/-- What is read up to a closing bracket is blanks only, or a series of the items read. -/
theorem series_of_read (hitem : reader.Takes item) {s rest : List Char} {items : List α}
    (h : bracket.read reader s = .ok (items, rest)) :
    ∃ text, (items = [] ∧ Blanks text ∨ Json.Series item items text) ∧
      s = text ++ bracket.close :: rest := by
  obtain ⟨blanks, hblanks, hsplit⟩ := exists_blanks s
  unfold Bracket.read at h
  split at h
  · cases h
  · rename_i c behind hs
    rw [hs] at hsplit
    split at h
    · rename_i hclose
      cases h
      subst hclose
      exact ⟨blanks, Or.inl ⟨rfl, hblanks⟩, hsplit⟩
    · split at h
      · cases h
      · rename_i a next hread
        split at h
        · cases h
        · rename_i more left hmore
          cases h
          obtain ⟨before, text, hbefore, htext, hnext⟩ := hitem hread
          obtain ⟨series, hseries, hleft⟩ :=
            (remainder_of_readMore hitem hmore).exists_series (hblanks.append hbefore) htext
          refine ⟨series, Or.inr hseries, ?_⟩
          rw [hsplit, hnext, ← hleft]
          simp only [List.append_assoc]

end Bracket

namespace Json

theorem eq_append_of_readWord {letters s rest : List Char} (h : readWord letters s = .ok rest) :
    s = letters ++ rest := by
  fun_induction readWord letters s with
  | case1 =>
      cases h
      rfl
  | case2 => cases h
  | case3 letters c s ih => rw [ih h, List.cons_append]
  | case4 => cases h

theorem takes_memberReader {value : Reader Json} {spelled : Json → List Char → Prop}
    (hvalue : value.Takes spelled) : (memberReader value).Takes (Member .any spelled) := by
  intro s rest m h
  change readMember value s = .ok (m, rest) at h
  unfold readMember at h
  split at h
  · cases h
  · split at h
    · rename_i hquote
      subst hquote
      split at h
      · cases h
      · rename_i key afterKey hkey
        obtain ⟨keyText, hliteral, hkeySplit⟩ := Quoted.exists_literal_of_readString hkey
        obtain ⟨blanks, hblanks, hbehind⟩ := exists_blanks afterKey
        split at h
        · cases h
        · rename_i afterColon hcolon
          split at h
          · cases h
          · rename_i v afterValue hread
            cases h
            obtain ⟨before, text, hbefore, htext, hsplit⟩ := hvalue hread
            refine ⟨[], _, by simp [Blanks], .mk hliteral hblanks hbefore htext, ?_⟩
            rw [hkeySplit, hbehind, hcolon, hsplit]
            simp
        · cases h
    · cases h

section Containers

variable {value : Reader Json} {inner : Json → List Char → Prop} {s rest : List Char}

theorem exists_array_of_read (hvalue : value.Takes inner) {items : List Json}
    (h : Bracket.list.read value s = .ok (items, rest)) :
    ∃ text, Container .any inner (.array items) text ∧ '[' :: s = text ++ rest := by
  obtain ⟨text, ⟨rfl, hblanks⟩ | hseries, rfl⟩ := Bracket.series_of_read hvalue h
  · exact ⟨_, .emptyArray hblanks, by simp [Bracket.list]⟩
  · exact ⟨_, .array hseries, by simp [Bracket.list]⟩

theorem exists_object_of_read (hvalue : value.Takes inner) {members : List (String × Json)}
    (h : Bracket.object.read (memberReader value) s = .ok (members, rest)) :
    ∃ text, Container .any inner (.object members) text ∧ '\x7b' :: s = text ++ rest := by
  obtain ⟨text, ⟨rfl, hblanks⟩ | hseries, rfl⟩ :=
    Bracket.series_of_read (takes_memberReader hvalue) h
  · exact ⟨_, .emptyObject hblanks, by simp [Bracket.object]⟩
  · exact ⟨_, .object hseries, by simp [Bracket.object]⟩

end Containers

/-- The value that is read has a text of the grammar: a word, a number, a string, or what
stands between two brackets. -/
theorem exists_text_of_readWith {nested : Option (Reader Json)}
    {inner : Json → List Char → Prop} (hnested : ∀ value ∈ nested, value.Takes inner)
    {s rest : List Char} {v : Json} (h : readWith nested s = .ok (v, rest)) :
    ∃ before text, Blanks before ∧
      (Scalar .any v text ∨ nested.isSome = true ∧ Container .any inner v text) ∧
      s = before ++ text ++ rest := by
  obtain ⟨before, hbefore, hsplit⟩ := exists_blanks s
  -- the blanks apart, each way to begin a value is one way to spell it
  suffices hvalue : ∃ text,
      (Scalar .any v text ∨ nested.isSome = true ∧ Container .any inner v text) ∧
        skipBlanks s = text ++ rest by
    obtain ⟨text, htext, hskip⟩ := hvalue
    exact ⟨before, text, hbefore, htext, by rw [hsplit, hskip, List.append_assoc]⟩
  unfold readWith at h
  split at h
  · cases h
  rename_i c behind hs
  rw [hs]
  split at h
  · rename_i hc
    obtain ⟨hword, rfl⟩ := rest_of_word h
    exact ⟨_, Or.inl .null, by rw [hc, eq_append_of_readWord hword]; rfl⟩
  split at h
  · rename_i hc
    obtain ⟨hword, rfl⟩ := rest_of_word h
    exact ⟨_, Or.inl .true, by rw [hc, eq_append_of_readWord hword]; rfl⟩
  split at h
  · rename_i hc
    obtain ⟨hword, rfl⟩ := rest_of_word h
    exact ⟨_, Or.inl .false, by rw [hc, eq_append_of_readWord hword]; rfl⟩
  split at h
  · rename_i hc
    obtain ⟨number, hread, rfl⟩ := exists_of_map h
    obtain ⟨text, hnumber, rfl⟩ := Numeral.exists_text_of_readNumber hread
    exact ⟨_, Or.inl (.number hnumber), by rw [hc]; rfl⟩
  split at h
  · obtain ⟨number, hread, rfl⟩ := exists_of_map h
    obtain ⟨text, hnumber, htext⟩ := Numeral.exists_text_of_readNumber hread
    exact ⟨_, Or.inl (.number hnumber), htext⟩
  split at h
  · rename_i hc
    obtain ⟨value, hread, rfl⟩ := exists_of_map h
    obtain ⟨text, hliteral, htext⟩ := Quoted.exists_literal_of_readString hread
    exact ⟨text, Or.inl (.string hliteral), by rw [hc, htext]⟩
  split at h
  · rename_i hc
    cases nested with
    | none => cases h
    | some value =>
        obtain ⟨items, hread, rfl⟩ := exists_of_map h
        obtain ⟨text, harray, htext⟩ := exists_array_of_read (hnested value rfl) hread
        exact ⟨text, Or.inr ⟨rfl, harray⟩, by rw [hc, htext]⟩
  split at h
  · rename_i hc
    cases nested with
    | none => cases h
    | some value =>
        obtain ⟨members, hread, rfl⟩ := exists_of_map h
        obtain ⟨text, hobject, htext⟩ := exists_object_of_read (hnested value rfl) hread
        exact ⟨text, Or.inr ⟨rfl, hobject⟩, by rw [hc, htext]⟩
  · cases h

/-- A reader of values takes only texts of the grammar, down to the depth that it reads. -/
theorem takes_reader (depth : Nat) : (reader depth).Takes (Spelled .any depth) := by
  induction depth with
  | zero =>
      intro s rest v h
      rw [reader_zero] at h
      have hnested : ∀ value ∈ (none : Option (Reader Json)), value.Takes (Scalar .any) := by
        simp
      obtain ⟨before, text, hbefore, hscalar | hcontainer, hsplit⟩ :=
        exists_text_of_readWith hnested h
      · exact ⟨before, text, hbefore, hscalar, hsplit⟩
      · cases hcontainer.1
  | succ depth ih =>
      intro s rest v h
      rw [reader_succ] at h
      have hnested : ∀ value ∈ some (reader depth), value.Takes (Spelled .any depth) := by
        rintro value ⟨⟩
        exact ih
      obtain ⟨before, text, hbefore, htext, hsplit⟩ := exists_text_of_readWith hnested h
      exact ⟨before, text, hbefore, htext.imp id And.right, hsplit⟩

theorem document_of_parse {text : List Char} {v : Json} (h : parse text = .ok v) :
    Document .any v text := by
  unfold parse parseWithin at h
  split at h
  · cases h
  · rename_i value rest hread
    obtain ⟨before, spelled, hbefore, hspelled, rfl⟩ := takes_reader deepest hread
    split at h
    · rename_i hrest
      cases h
      obtain ⟨after, hafter, hsplit⟩ := exists_blanks rest
      rw [hrest, List.append_nil] at hsplit
      rw [hsplit]
      exact .mk hbefore hspelled hafter
    · cases h

theorem Dialect.any_partOf_any : any.PartOf any :=
  ⟨id, id⟩

/-- A text is read as a value exactly if it is a document of that value. -/
theorem parse_eq_ok_iff {text : List Char} {v : Json} :
    parse text = .ok v ↔ Document .any v text :=
  ⟨document_of_parse, parse_document Dialect.any_partOf_any⟩

end Json

end JsxProvenance
