import JsxProvenance.Proofs.Json.Numeral
import JsxProvenance.Proofs.Json.Quoted

/-!
Every text of the grammar is read as the value that it spells. The readers take a text off
the front of a longer one, so each lemma speaks of any rest behind the text; the rest may
only not go on a number, which has no mark of its own to end it. Series between brackets
are treated once, for arrays and objects alike: what they need of their items is
`Reader.Reads`. Values go by induction on the depth, as the reader does.

The grammar leaves open how strings and numbers are spelled. Whatever the dialect is, it
only has to be a part of JSON.

Main statement: `Json.parse_document`.
-/

namespace JsxProvenance

open Numeral (Ends continues follows_cons ends_nil)

section Blanks

theorem skipBlanks_append {before : List Char} (h : Blanks before) (s : List Char) :
    skipBlanks (before ++ s) = skipBlanks s :=
  List.dropWhile_append_of_pos h

theorem skipBlanks_cons {c : Char} (h : isBlank c = false) (s : List Char) :
    skipBlanks (c :: s) = c :: s := by
  simp [skipBlanks, h]

theorem skipBlanks_blanks {s : List Char} (h : Blanks s) : skipBlanks s = [] := by
  have hskip := skipBlanks_append h []
  rwa [List.append_nil] at hskip

theorem continues_of_isBlank {c : Char} (h : isBlank c = true) : continues c = false := by
  simp only [isBlank, Bool.or_eq_true, decide_eq_true_eq] at h
  rcases h with ((rfl | rfl) | rfl) | rfl <;> decide

theorem ends_append {before rest : List Char} (h : Blanks before) (hrest : Ends rest) :
    Ends (before ++ rest) := by
  cases before with
  | nil => exact hrest
  | cons c more => exact follows_cons (continues_of_isBlank (h c List.mem_cons_self)) _

end Blanks

/-- The reader takes every text of an item off the front of a longer text. An item begins
neither with a blank nor with the character that closes the series it stands in. -/
structure Reader.Reads {α : Type} (reader : Reader α) (close : Char)
    (item : α → List Char → Prop) : Prop where
  read : ∀ {a : α} {s rest : List Char}, item a s → Ends rest →
    reader.read (s ++ rest) = .ok (a, rest)
  start : ∀ {a : α} {s : List Char}, item a s →
    ∃ c more, s = c :: more ∧ isBlank c = false ∧ c ≠ close

namespace Bracket

variable {α : Type} {bracket : Bracket} {reader : Reader α}

/-- The closing bracket is taken for nothing else in a series. -/
structure Apart (bracket : Bracket) : Prop where
  comma : bracket.close ≠ ','
  blank : isBlank bracket.close = false
  number : continues bracket.close = false

theorem apart_list : list.Apart := ⟨by decide, by decide, by decide⟩

theorem apart_object : object.Apart := ⟨by decide, by decide, by decide⟩

theorem readMore_close {s rest : List Char} (h : skipBlanks s = bracket.close :: rest) :
    readMore bracket reader s = .ok ([], rest) := by
  rw [readMore]
  split
  · rename_i hs
    rw [h] at hs
    cases hs
  · rename_i c more hs
    rw [h] at hs
    cases hs
    rw [if_pos rfl]

theorem readMore_comma (hclose : bracket.close ≠ ',') {s behind text next rest : List Char}
    {c : Char} {a : α} {more : List α} (hs : skipBlanks s = ',' :: behind)
    (hbehind : skipBlanks behind = c :: text) (hc : c ≠ bracket.close)
    (hitem : reader.read (c :: text) = .ok (a, next))
    (hmore : readMore bracket reader next = .ok (more, rest)) :
    readMore bracket reader s = .ok (a :: more, rest) := by
  rw [readMore]
  split
  · rename_i hempty
    rw [hs] at hempty
    cases hempty
  · rename_i comma behind' hcomma
    rw [hs] at hcomma
    cases hcomma
    rw [if_neg hclose.symm, if_pos rfl, if_neg (by simp [hbehind, hc])]
    split
    · rename_i fault hfault
      rw [hbehind, hitem] at hfault
      cases hfault
    · rename_i a' next' hitem'
      rw [hbehind, hitem] at hitem'
      cases hitem'
      rw [hmore]

variable {item : α → List Char → Prop}

/-- A series gives its first item to the reader, and what that leaves gives the others. The
induction is on the series: the items behind a comma are a series again. -/
theorem exists_first_of_series (hclose : bracket.Apart)
    (hreads : reader.Reads bracket.close item) {items : List α} {s : List Char}
    (h : Json.Series item items s) (rest : List Char) :
    ∃ (a : α) (more : List α) (c : Char) (text next : List Char), items = a :: more ∧
      skipBlanks (s ++ bracket.close :: rest) = c :: text ∧ c ≠ bracket.close ∧
      reader.read (c :: text) = .ok (a, next) ∧
      readMore bracket reader next = .ok (more, rest) := by
  induction h with
  | @last a before text after hbefore hitem hafter =>
      obtain ⟨c, more, rfl, hblank, hc⟩ := hreads.start hitem
      have hends : Ends (after ++ bracket.close :: rest) :=
        ends_append hafter (follows_cons hclose.number rest)
      refine ⟨a, [], c, more ++ (after ++ bracket.close :: rest), after ++ bracket.close :: rest,
        rfl, ?_, hc, hreads.read hitem hends, ?_⟩
      · rw [List.append_assoc, List.append_assoc, skipBlanks_append hbefore]
        exact skipBlanks_cons hblank _
      · apply readMore_close
        rw [skipBlanks_append hafter, skipBlanks_cons hclose.blank]
  | @cons a items before text after others hbefore hitem hafter hothers ih =>
      obtain ⟨b, more, d, behind, next, rfl, hbehind, hd, hread, hmore⟩ := ih
      obtain ⟨c, tail, rfl, hblank, hc⟩ := hreads.start hitem
      let left := after ++ ',' :: (others ++ bracket.close :: rest)
      have hends : Ends left := ends_append hafter (follows_cons (by decide) _)
      refine ⟨a, b :: more, c, tail ++ left, left, rfl, ?_, hc, hreads.read hitem hends, ?_⟩
      · simp only [List.append_assoc, List.cons_append, skipBlanks_append hbefore, left]
        exact skipBlanks_cons hblank _
      · have hcomma : skipBlanks left = ',' :: (others ++ bracket.close :: rest) := by
          rw [skipBlanks_append hafter]
          exact skipBlanks_cons (by decide) _
        exact readMore_comma hclose.comma hcomma hbehind hd hread hmore

theorem read_series (hclose : bracket.Apart) (hreads : reader.Reads bracket.close item)
    {items : List α} {s : List Char} (h : Json.Series item items s) (rest : List Char) :
    bracket.read reader (s ++ bracket.close :: rest) = .ok (items, rest) := by
  obtain ⟨a, more, c, text, next, rfl, hskip, hc, hread, hmore⟩ :=
    exists_first_of_series hclose hreads h rest
  simp only [Bracket.read, hskip, if_neg hc, hread, hmore]

theorem read_empty (hclose : bracket.Apart) {s : List Char} (h : Blanks s) (rest : List Char) :
    bracket.read reader (s ++ bracket.close :: rest) = .ok ([], rest) := by
  have hskip : skipBlanks (s ++ bracket.close :: rest) = bracket.close :: rest := by
    rw [skipBlanks_append h, skipBlanks_cons hclose.blank]
  simp only [Bracket.read, hskip, if_pos]

end Bracket

namespace Json

/-- Every spelling of the one dialect is a spelling of the other. -/
structure Dialect.PartOf (dialect other : Dialect) : Prop where
  number : ∀ {value : Number} {s : List Char}, dialect.number value s → other.number value s
  string : ∀ {value : String} {s : List Char}, dialect.string value s → other.string value s

theorem Dialect.canonical_partOf_any : canonical.PartOf any where
  number := by
    rintro value s ⟨n, rfl, hshort, rfl⟩
    exact ⟨.ofInt n, Numeral.text_ofInt n, Numeral.value_ofInt hshort⟩
  string := by
    rintro value s rfl
    exact Quoted.literal_write value

/-- The characters that a value can begin with. -/
def Opens (c : Char) : Prop :=
  c.isDigit = true ∨ c ∈ ['n', 't', 'f', '-', '"', '[', '\x7b']

instance (c : Char) : Decidable (Opens c) :=
  inferInstanceAs (Decidable (_ ∨ _))

theorem Opens.ne {c d : Char} (h : Opens c) (hd : ¬ Opens d) : c ≠ d := by
  rintro rfl
  exact hd h

theorem Opens.not_blank {c : Char} (h : Opens c) : isBlank c = false := by
  have hspace : c ≠ ' ' := h.ne (by decide)
  have hline : c ≠ '\n' := h.ne (by decide)
  have htab : c ≠ '\t' := h.ne (by decide)
  have hreturn : c ≠ '\r' := h.ne (by decide)
  simp [isBlank, hspace, hline, htab, hreturn]

section Scalars

variable {nested : Option (Reader Json)}

theorem readWith_blanks {before : List Char} (h : Blanks before) (s : List Char) :
    readWith nested (before ++ s) = readWith nested s := by
  rw [readWith, readWith, skipBlanks_append h]

theorem readWith_digit {c : Char} (h : c.isDigit = true) (rest : List Char) :
    readWith nested (c :: rest) =
      (Numeral.readNumber false (c :: rest)).map (Prod.map .number id) := by
  have hne : ∀ d : Char, d.isDigit = false → c ≠ d := by
    rintro d hd rfl
    rw [h] at hd
    cases hd
  rw [readWith, skipBlanks_cons (Opens.not_blank (Or.inl h))]
  simp only [if_neg (hne 'n' rfl), if_neg (hne 't' rfl), if_neg (hne 'f' rfl),
    if_neg (hne '-' rfl), h, if_true]

theorem readWith_minus (rest : List Char) :
    readWith nested ('-' :: rest) =
      (Numeral.readNumber true rest).map (Prod.map .number id) := rfl

theorem readWith_quote (rest : List Char) :
    readWith nested ('"' :: rest) = (Quoted.readString rest).map (Prod.map .string id) := rfl

theorem readWith_list (value : Reader Json) (rest : List Char) :
    readWith (some value) ('[' :: rest) =
      (Bracket.list.read value rest).map (Prod.map .array id) := rfl

theorem readWith_object (value : Reader Json) (rest : List Char) :
    readWith (some value) ('\x7b' :: rest) =
      (Bracket.object.read (memberReader value) rest).map (Prod.map .object id) := rfl

theorem readWith_number {value : Number} {s rest : List Char} (h : Dialect.any.number value s)
    (hrest : Ends rest) : readWith nested (s ++ rest) = .ok (.number value, rest) := by
  obtain ⟨numeral, htext, hvalue⟩ := h
  obtain ⟨unsigned, rfl, ⟨c, more, rfl, hc⟩, hread⟩ := Numeral.read_text htext
  have hnumber := Numeral.readNumber_of_read (hread rest hrest) hvalue
  cases hsign : numeral.negative with
  | true =>
      rw [hsign] at hnumber
      have htext : (if true = true then ['-'] else []) ++ c :: more ++ rest =
          '-' :: (c :: more ++ rest) := rfl
      rw [htext, readWith_minus, hnumber]
      rfl
  | false =>
      rw [hsign, List.cons_append] at hnumber
      have htext : (if false = true then ['-'] else []) ++ c :: more ++ rest =
          c :: (more ++ rest) := rfl
      rw [htext, readWith_digit hc, hnumber]
      rfl

theorem readWith_string {value : String} {s : List Char} (h : Quoted.Literal value s)
    (rest : List Char) : readWith nested (s ++ rest) = .ok (.string value, rest) := by
  obtain @⟨chars, body, hbody⟩ := h
  have htext : '"' :: body ++ ['"'] ++ rest = '"' :: (body ++ '"' :: rest) := by simp
  rw [htext, readWith_quote, Quoted.readString_body hbody]
  rfl

end Scalars

/-- The reader takes every text of a value off the front of a longer text, and blanks that
stand before it as well. -/
structure ReadsValues (value : Reader Json) (spelled : Json → List Char → Prop) : Prop where
  blanks : ∀ {before : List Char} (s : List Char), Blanks before →
    value.read (before ++ s) = value.read s
  read : ∀ {v : Json} {s rest : List Char}, spelled v s → Ends rest →
    value.read (s ++ rest) = .ok (v, rest)

section Values

variable {dialect : Dialect} (hdialect : dialect.PartOf .any)
include hdialect

theorem readWith_scalar (nested : Option (Reader Json)) {v : Json} {s rest : List Char}
    (h : Scalar dialect v s) (hrest : Ends rest) :
    readWith nested (s ++ rest) = .ok (v, rest) := by
  cases h with
  | null | true | false => rfl
  | number h => exact readWith_number (hdialect.number h) hrest
  | string h => exact readWith_string (hdialect.string h) rest

theorem readMember_member {value : Reader Json} {spelled : Json → List Char → Prop}
    (hvalue : ReadsValues value spelled) {m : String × Json} {s rest : List Char}
    (h : Member dialect spelled m s) (hrest : Ends rest) :
    readMember value (s ++ rest) = .ok (m, rest) := by
  obtain @⟨key, v, k, before, after, text, hkey, hbefore, hafter, htext⟩ := h
  obtain @⟨chars, body, hbody⟩ := hdialect.string hkey
  have hsplit : '"' :: body ++ ['"'] ++ before ++ ':' :: after ++ text ++ rest =
      '"' :: (body ++ '"' :: (before ++ ':' :: (after ++ (text ++ rest)))) := by simp
  have hcolon : skipBlanks (before ++ ':' :: (after ++ (text ++ rest))) =
      ':' :: (after ++ (text ++ rest)) := by
    rw [skipBlanks_append hbefore]
    rfl
  rw [hsplit, readMember, if_pos rfl]
  simp only [Quoted.readString_body hbody, hcolon, hvalue.blanks _ hafter,
    hvalue.read htext hrest]

theorem opens_scalar {v : Json} {s : List Char} (h : Scalar dialect v s) :
    ∃ c more, s = c :: more ∧ Opens c := by
  cases h with
  | null | true | false => exact ⟨_, _, rfl, by decide⟩
  | number h =>
      obtain ⟨numeral, htext, _⟩ := hdialect.number h
      obtain ⟨unsigned, rfl, ⟨c, more, rfl, hc⟩, _⟩ := Numeral.read_text htext
      cases numeral.negative with
      | true => exact ⟨'-', _, rfl, by decide⟩
      | false => exact ⟨c, more, rfl, Or.inl hc⟩
  | string h =>
      obtain @⟨chars, body, hbody⟩ := hdialect.string h
      exact ⟨'"', _, rfl, by decide⟩

theorem opens_spelled {depth : Nat} {v : Json} {s : List Char} (h : Spelled dialect depth v s) :
    ∃ c more, s = c :: more ∧ Opens c := by
  cases depth with
  | zero => exact opens_scalar hdialect h
  | succ depth =>
      rcases h with h | h
      · exact opens_scalar hdialect h
      · cases h with
        | emptyArray | array | emptyObject | object => exact ⟨_, _, rfl, by decide⟩

theorem opens_member {spelled : Json → List Char → Prop} {m : String × Json} {s : List Char}
    (h : Member dialect spelled m s) : ∃ c more, s = c :: more ∧ Opens c := by
  obtain @⟨key, v, k, before, after, text, hkey, hbefore, hafter, htext⟩ := h
  obtain @⟨chars, body, hbody⟩ := hdialect.string hkey
  exact ⟨'"', _, rfl, by decide⟩

/-- Arrays and objects are read with a reader for what may stand inside them. -/
theorem readWith_container {value : Reader Json} {depth : Nat}
    (hvalue : ReadsValues value (Spelled dialect depth)) {v : Json} {s : List Char}
    (h : Container dialect (Spelled dialect depth) v s) (rest : List Char) :
    readWith (some value) (s ++ rest) = .ok (v, rest) := by
  have hitems : value.Reads Bracket.list.close (Spelled dialect depth) := by
    refine ⟨hvalue.read, ?_⟩
    intro v s hv
    obtain ⟨c, more, rfl, hc⟩ := opens_spelled hdialect hv
    exact ⟨c, more, rfl, hc.not_blank, hc.ne (by decide)⟩
  have hmembers : (memberReader value).Reads Bracket.object.close
      (Member dialect (Spelled dialect depth)) := by
    refine ⟨readMember_member hdialect hvalue, ?_⟩
    intro m s hm
    obtain ⟨c, more, rfl, hc⟩ := opens_member hdialect hm
    exact ⟨c, more, rfl, hc.not_blank, hc.ne (by decide)⟩
  have hlist : ∀ text, '[' :: text ++ [']'] ++ rest =
      '[' :: (text ++ Bracket.list.close :: rest) := by
    intro text
    simp [Bracket.list]
  have hobject : ∀ text, '\x7b' :: text ++ ['\x7d'] ++ rest =
      '\x7b' :: (text ++ Bracket.object.close :: rest) := by
    intro text
    simp [Bracket.object]
  cases h with
  | @emptyArray text h =>
      rw [hlist, readWith_list, Bracket.read_empty Bracket.apart_list h]
      rfl
  | @array items text h =>
      rw [hlist, readWith_list, Bracket.read_series Bracket.apart_list hitems h]
      rfl
  | @emptyObject text h =>
      rw [hobject, readWith_object, Bracket.read_empty Bracket.apart_object h]
      rfl
  | @object members text h =>
      rw [hobject, readWith_object, Bracket.read_series Bracket.apart_object hmembers h]
      rfl

end Values

theorem reader_zero (s : List Char) : (reader 0).read s = readWith none s := rfl

theorem reader_succ (depth : Nat) (s : List Char) :
    (reader (depth + 1)).read s = readWith (some (reader depth)) s := rfl

theorem reader_blanks (depth : Nat) {before : List Char} (s : List Char) (h : Blanks before) :
    (reader depth).read (before ++ s) = (reader depth).read s := by
  cases depth with
  | zero => rw [reader_zero, reader_zero, readWith_blanks h]
  | succ depth => rw [reader_succ, reader_succ, readWith_blanks h]

/-- A text of a value is read as that value, and what stands behind it is left. -/
theorem reader_spelled {dialect : Dialect} (hdialect : dialect.PartOf .any) {depth : Nat}
    {v : Json} {s rest : List Char} (h : Spelled dialect depth v s) (hrest : Ends rest) :
    (reader depth).read (s ++ rest) = .ok (v, rest) := by
  induction depth generalizing v s rest with
  | zero =>
      rw [reader_zero]
      exact readWith_scalar hdialect _ h hrest
  | succ depth ih =>
      rw [reader_succ]
      rcases h with h | h
      · exact readWith_scalar hdialect _ h hrest
      · exact readWith_container hdialect ⟨reader_blanks depth, ih⟩ h rest

/-- Every document is read as its value. -/
theorem parse_document {dialect : Dialect} (hdialect : dialect.PartOf .any) {v : Json}
    {text : List Char} (h : Document dialect v text) : parse text = .ok v := by
  obtain @⟨before, s, after, hbefore, hspelled, hafter⟩ := h
  have hends : Ends after := by
    have hblanks := ends_append hafter ends_nil
    rwa [List.append_nil] at hblanks
  have hread : (reader deepest).read (before ++ s ++ after) = .ok (v, after) := by
    rw [List.append_assoc, reader_blanks deepest _ hbefore]
    exact reader_spelled hdialect hspelled hends
  rw [parse, parseWithin, hread]
  simp only [skipBlanks_blanks hafter]

end Json

end JsxProvenance
