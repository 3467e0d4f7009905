import JsxProvenance.Options
import JsxProvenance.Proofs.Json.Faults

/-!
Blanks around options say nothing. A document that is followed by blanks is a document
without them, since no value has a text that ends with a blank; and blanks in front of a
text change neither its value nor its fault, only the place where the fault lies. White
space is a wider notion than blanks, but a blank is white space, so that a text is empty of
anything else with its padding exactly if it is without.

Main statement: `Options.read_padded`.
-/

namespace JsxProvenance

/-- The text is not empty, and no blank stands at its end. -/
def EndsSolid (s : List Char) : Prop :=
  ∃ c, s.getLast? = some c ∧ isBlank c = false

theorem EndsSolid.append {t : List Char} (h : EndsSolid t) (s : List Char) :
    EndsSolid (s ++ t) := by
  obtain ⟨c, hlast, hc⟩ := h
  exact ⟨c, by rw [List.getLast?_append, hlast]; rfl, hc⟩

theorem endsSolid_concat {c : Char} (h : isBlank c = false) (s : List Char) :
    EndsSolid (s ++ [c]) :=
  ⟨c, List.getLast?_concat, h⟩

namespace Numeral

theorem endsSolid_digits {digits : List Char} (h : Digits digits) : EndsSolid digits := by
  have hlast := List.getLast?_eq_some_getLast h.1
  refine ⟨digits.getLast h.1, hlast, ?_⟩
  exact Json.Opens.not_blank (Or.inl (h.2 _ (List.getLast_mem h.1)))

theorem endsSolid_text {numeral : Numeral} {s : List Char} (h : numeral.Text s) :
    EndsSolid s := by
  obtain @⟨negative, whole, fraction, fractionText, exponentText, exponent, hwhole, hfraction,
    hexponent⟩ := h
  have hdigits : EndsSolid ((if negative then ['-'] else []) ++ whole) :=
    (endsSolid_digits hwhole.1).append _
  have hpoint : EndsSolid ((if negative then ['-'] else []) ++ whole ++ fractionText) := by
    cases hfraction with
    | absent => rwa [List.append_nil]
    | present h => exact ((endsSolid_digits h).append ['.']).append _
  cases hexponent with
  | absent => rwa [List.append_nil]
  | @unsigned mark digits _ h => exact ((endsSolid_digits h).append [mark]).append _
  | @positive mark digits _ h => exact ((endsSolid_digits h).append [mark, '+']).append _
  | @negative mark digits _ h => exact ((endsSolid_digits h).append [mark, '-']).append _

end Numeral

namespace Json

theorem endsSolid_scalar {v : Json} {s : List Char} (h : Scalar .any v s) : EndsSolid s := by
  cases h with
  | null | true | false => exact ⟨_, rfl, by decide⟩
  | number h =>
      obtain ⟨numeral, htext, _⟩ := h
      exact Numeral.endsSolid_text htext
  | string h =>
      obtain @⟨chars, body, _⟩ := h
      exact endsSolid_concat (by decide) ('"' :: body)

theorem endsSolid_spelled {depth : Nat} {v : Json} {s : List Char}
    (h : Spelled .any depth v s) : EndsSolid s := by
  cases depth with
  | zero => exact endsSolid_scalar h
  | succ depth =>
      rcases h with h | h
      · exact endsSolid_scalar h
      · cases h with
        | emptyArray | array => exact endsSolid_concat (by decide) ('[' :: _)
        | emptyObject | object => exact endsSolid_concat (by decide) ('\x7b' :: _)

end Json

/-- Blanks at the end of a text are told apart from a solid text in front of them. -/
theorem exists_blanks_of_append_eq {s text after after' : List Char}
    (h : s ++ after = text ++ after') (htext : EndsSolid text) (hafter : Blanks after)
    (hafter' : Blanks after') : ∃ more, Blanks more ∧ s = text ++ more := by
  rcases List.append_eq_append_iff.mp h with ⟨more, hmore, hrest⟩ | ⟨more, hmore, hrest⟩
  · -- the solid text reaches into the blanks, so it reaches to their start only
    obtain ⟨c, hlast, hc⟩ := htext
    cases hnext : more.getLast? with
    | none =>
        rw [List.getLast?_eq_none_iff] at hnext
        refine ⟨[], by simp [Blanks], ?_⟩
        rw [hmore, hnext, List.append_nil, List.append_nil]
    | some d =>
        rw [hmore, List.getLast?_append, hnext, Option.some_or, Option.some.injEq] at hlast
        have hmem : d ∈ after := by
          rw [hrest]
          exact List.mem_append_left after' (List.mem_of_getLast? hnext)
        rw [← hlast, hafter d hmem] at hc
        cases hc
  · refine ⟨more, ?_, hmore⟩
    intro c hc
    apply hafter'
    rw [hrest]
    exact List.mem_append_left after hc

namespace Json

variable {v : Json} {s after : List Char}

theorem document_of_append_blanks (h : Document .any v (s ++ after)) (hafter : Blanks after) :
    Document .any v s := by
  generalize hwhole : s ++ after = whole at h
  obtain @⟨before, text, after', hbefore, hspelled, hafter'⟩ := h
  obtain ⟨more, hmore, rfl⟩ := exists_blanks_of_append_eq hwhole
    ((endsSolid_spelled hspelled).append before) hafter hafter'
  exact .mk hbefore hspelled hmore

theorem document_append_blanks (h : Document .any v s) (hafter : Blanks after) :
    Document .any v (s ++ after) := by
  obtain @⟨before, text, after', hbefore, hspelled, hafter'⟩ := h
  rw [List.append_assoc]
  exact .mk hbefore hspelled (hafter'.append hafter)

/-- Blanks behind a text neither make a value of it nor spoil the one that it has. -/
theorem parse_append_blanks (hafter : Blanks after) :
    parse (s ++ after) = .ok v ↔ parse s = .ok v := by
  rw [parse_eq_ok_iff, parse_eq_ok_iff]
  constructor
  · intro h
    exact document_of_append_blanks h hafter
  · intro h
    exact document_append_blanks h hafter

end Json

theorem isWhiteSpace_of_isBlank {c : Char} (h : isBlank c = true) : isWhiteSpace c = true := by
  simp only [isBlank, Bool.or_eq_true, decide_eq_true_eq] at h
  rcases h with ((rfl | rfl) | rfl) | rfl <;> decide

theorem Blanks.all_isWhiteSpace {s : List Char} (h : Blanks s) : s.all isWhiteSpace = true := by
  rw [List.all_eq_true]
  intro c hc
  exact isWhiteSpace_of_isBlank (h c hc)

namespace Options

theorem ofJson_ne_malformed (v : Json) (flaw : Flaw) (place : Place) :
    ofJson v ≠ .error (.malformed flaw place) := by
  cases v with
  | object members =>
      intro h
      simp only [ofJson] at h
      split at h <;> cases h
  | null | bool | number | string | array =>
      intro h
      cases h

/-- A text is malformed exactly if it is not blank and has a fault, and that fault is told. -/
theorem read_eq_malformed_iff {text : String} {flaw : Flaw} {place : Place} :
    read text = .error (.malformed flaw place) ↔
      text.toList.all isWhiteSpace = false ∧
        ∃ fault, Json.parse text.toList = .error fault ∧ fault.flaw = flaw ∧
          fault.place text.toList = place := by
  unfold read
  cases hblank : text.toList.all isWhiteSpace with
  | true => simp
  | false =>
      cases hparse : Json.parse text.toList with
      | error fault => simp
      | ok v => simp [ofJson_ne_malformed]

section Padded

variable {before after : String}

theorem all_isWhiteSpace_padded (hbefore : Blanks before.toList) (hafter : Blanks after.toList)
    (raw : String) :
    (before ++ raw ++ after).toList.all isWhiteSpace = raw.toList.all isWhiteSpace := by
  rw [String.toList_append, String.toList_append, List.all_append, List.all_append,
    hbefore.all_isWhiteSpace, hafter.all_isWhiteSpace, Bool.true_and, Bool.and_true]

theorem parse_padded (hbefore : Blanks before.toList) (hafter : Blanks after.toList)
    (raw : String) (v : Json) :
    Json.parse (before ++ raw ++ after).toList = .ok v ↔ Json.parse raw.toList = .ok v := by
  rw [String.toList_append, String.toList_append, List.append_assoc, Json.parse_blanks hbefore,
    Json.parse_append_blanks hafter]

/-- Padding does not turn a text that can be read into one that cannot, or the other way. -/
theorem read_padded_eq_or (hbefore : Blanks before.toList) (hafter : Blanks after.toList)
    (raw : String) :
    read (before ++ raw ++ after) = read raw ∨
      ∃ flaw place flaw' place', read raw = .error (.malformed flaw place) ∧
        read (before ++ raw ++ after) = .error (.malformed flaw' place') := by
  have hblank := all_isWhiteSpace_padded hbefore hafter raw
  have hparse := parse_padded hbefore hafter raw
  rw [read, hblank, read]
  cases hraw : raw.toList.all isWhiteSpace with
  | true => exact Or.inl rfl
  | false =>
      cases hvalue : Json.parse raw.toList with
      | ok v =>
          rw [(hparse v).mpr hvalue]
          exact Or.inl rfl
      | error fault =>
          cases hpadded : Json.parse (before ++ raw ++ after).toList with
          | ok v =>
              rw [(hparse v).mp hpadded] at hvalue
              cases hvalue
          | error fault' => exact Or.inr ⟨_, _, _, _, rfl, rfl⟩

/-- The fault of a text is found again behind the blanks, as many lines lower as they have line
feeds, and further to the right if it was on the line that the blanks end on. -/
theorem read_of_malformed (hbefore : Blanks before.toList) {raw : String} {flaw : Flaw}
    {place : Place} (h : read raw = .error (.malformed flaw place)) :
    read (before ++ raw) =
      .error (.malformed flaw ((before.toList.foldl Place.advance Place.start).within place)) := by
  obtain ⟨hblank, fault, hfault, rfl, rfl⟩ := read_eq_malformed_iff.mp h
  rw [read_eq_malformed_iff, String.toList_append]
  refine ⟨?_, fault, ?_, rfl, ?_⟩
  · rw [List.all_append, hbefore.all_isWhiteSpace, Bool.true_and, hblank]
  · rw [Json.parse_blanks hbefore, hfault]
  · exact Fault.place_append (Json.left_le_of_parse hfault) before.toList

/-- Blanks around a text leave the answer as it is, or the text is malformed with them and
without. If they all stand in front, a malformed text keeps its flaw, as many lines lower as
there are line feeds among them; what stands behind the last of these moves the flaw to the
right, if it was on the first line. -/
theorem read_padded (hbefore : Blanks before.toList) (hafter : Blanks after.toList)
    (raw : String) :
    (read (before ++ raw ++ after) = read raw ∨
      ∃ flaw place flaw' place', read raw = .error (.malformed flaw place) ∧
        read (before ++ raw ++ after) = .error (.malformed flaw' place')) ∧
      ∀ flaw line column, read raw = .error (.malformed flaw ⟨line, column⟩) →
        read (before ++ raw) = .error (.malformed flaw
          ⟨line + before.toList.count '\n',
            if line = 1 then column + byteLength (before.toList.rtakeWhile (· ≠ '\n'))
            else column⟩) := by
  refine ⟨read_padded_eq_or hbefore hafter raw, ?_⟩
  intro flaw line column hraw
  rw [read_of_malformed hbefore hraw, Place.foldl_advance_start, Place.within]
  have hline : line + (1 + before.toList.count '\n') - 1 = line + before.toList.count '\n' := by
    omega
  simp only [hline, Nat.add_comm column]

end Padded

/-- The line feed moves the flaw down, and the two blanks behind it move it to the right. -/
theorem read_padded_missingComma :
    read "\n  [1 2]" = .error (.malformed .expectedListSeparator ⟨2, 6⟩) := by
  have hbefore : Blanks "\n  ".toList := List.all_eq_true.mp rfl
  have hafter : Blanks "\t".toList := List.all_eq_true.mp rfl
  exact (read_padded hbefore hafter "[1 2]").2 .expectedListSeparator 1 4 rfl

end Options

end JsxProvenance
