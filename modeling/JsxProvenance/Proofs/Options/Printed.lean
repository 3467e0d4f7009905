import JsxProvenance.Options
import JsxProvenance.Proofs.Json.Completeness

/-!
The options of a document that was printed. `Options.Means` says what a JSON value asks
for, member by member: only the last one that names the file counts. A text in which such
a value was printed, with blanks wherever they may stand, is read as just that.
`Json.Printable` are the values that can be printed with one spelling for each string and
each integer, and with no more brackets open at once than the reader allows; each of them
does have such a text.

Main statement: `Options.read_printed`.
-/

namespace JsxProvenance

namespace Json

/-- Short integers are the only numbers in the value, and at most `depth` brackets are
open in it at once. -/
inductive Printable : Nat → Json → Prop
  | null {depth : Nat} : Printable depth .null
  | bool {depth : Nat} {value : Bool} : Printable depth (.bool value)
  | integer {depth : Nat} {n : Int} (h : Short n) : Printable depth (.number (.int n))
  | string {depth : Nat} {value : String} : Printable depth (.string value)
  | array {depth : Nat} {items : List Json} (h : ∀ v ∈ items, Printable depth v) :
      Printable (depth + 1) (.array items)
  | object {depth : Nat} {members : List (String × Json)}
      (h : ∀ m ∈ members, Printable depth m.2) : Printable (depth + 1) (.object members)

theorem blanks_nil : Blanks [] := by
  intro c member
  cases member

theorem exists_series {α : Type} {item : α → List Char → Prop} {items : List α}
    (hne : items ≠ []) (h : ∀ a ∈ items, ∃ s, item a s) : ∃ s, Series item items s := by
  induction items with
  | nil => exact absurd rfl hne
  | cons a rest ih =>
      obtain ⟨s, hs⟩ := h a List.mem_cons_self
      by_cases hrest : rest = []
      · subst hrest
        exact ⟨_, .last blanks_nil hs blanks_nil⟩
      · obtain ⟨t, ht⟩ := ih hrest fun b member => h b (List.mem_cons_of_mem a member)
        exact ⟨_, .cons blanks_nil hs blanks_nil ht⟩

theorem spelled_of_scalar {dialect : Dialect} (depth : Nat) {v : Json} {s : List Char}
    (h : Scalar dialect v s) : Spelled dialect depth v s := by
  cases depth with
  | zero => exact h
  | succ depth => exact Or.inl h

theorem exists_spelled {depth : Nat} {v : Json} (h : Printable depth v) :
    ∃ s, Spelled .canonical depth v s := by
  induction h with
  | null => exact ⟨_, spelled_of_scalar _ .null⟩
  | @bool _ value =>
      cases value with
      | true => exact ⟨_, spelled_of_scalar _ .true⟩
      | false => exact ⟨_, spelled_of_scalar _ .false⟩
  | integer h => exact ⟨_, spelled_of_scalar _ (.number ⟨_, rfl, h, rfl⟩)⟩
  | string => exact ⟨_, spelled_of_scalar _ (.string rfl)⟩
  | @array depth items _ ih =>
      by_cases hempty : items = []
      · subst hempty
        exact ⟨_, Or.inr (.emptyArray blanks_nil)⟩
      · obtain ⟨s, hs⟩ := exists_series hempty ih
        exact ⟨_, Or.inr (.array hs)⟩
  | @object depth members _ ih =>
      by_cases hempty : members = []
      · subst hempty
        exact ⟨_, Or.inr (.emptyObject blanks_nil)⟩
      · have htexts : ∀ m ∈ members, ∃ s,
            Member .canonical (Spelled .canonical depth) m s := by
          rintro ⟨key, v⟩ member
          obtain ⟨s, hs⟩ := ih (key, v) member
          exact ⟨_, .mk rfl blanks_nil blanks_nil hs⟩
        obtain ⟨s, hs⟩ := exists_series hempty htexts
        exact ⟨_, Or.inr (.object hs)⟩

theorem exists_document {v : Json} (h : Printable deepest v) :
    ∃ text : String, Document .canonical v text.toList := by
  obtain ⟨s, hs⟩ := exists_spelled h
  refine ⟨String.ofList ([] ++ s ++ []), ?_⟩
  rw [String.toList_ofList]
  exact .mk blanks_nil hs blanks_nil

theorem member?_of_absent {key : String} {members : List (String × Json)}
    (h : ∀ m ∈ members, m.1 ≠ key) : member? key members = none := by
  rw [member?, List.lookup_eq_none_iff]
  intro m hm
  have hkey := h m (List.mem_reverse.mp hm)
  simpa using Ne.symm hkey

/-- The last member with a key hides those before it. -/
theorem member?_of_last {key : String} {before after : List (String × Json)} {found : Json}
    (h : ∀ m ∈ after, m.1 ≠ key) :
    member? key (before ++ (key, found) :: after) = some found := by
  have hafter : after.reverse.lookup key = none := member?_of_absent h
  have hreverse : (before ++ (key, found) :: after).reverse =
      after.reverse ++ (key, found) :: before.reverse := by simp
  rw [member?, hreverse, List.lookup_append, hafter]
  simp

theorem absent_or_last (key : String) (members : List (String × Json)) :
    (∀ m ∈ members, m.1 ≠ key) ∨
      ∃ before found after, members = before ++ (key, found) :: after ∧
        ∀ m ∈ after, m.1 ≠ key := by
  induction members with
  | nil => exact Or.inl (by simp)
  | cons m rest ih =>
      rcases ih with habsent | ⟨before, found, after, rfl, hafter⟩
      · by_cases hkey : m.1 = key
        · subst hkey
          exact Or.inr ⟨[], m.2, rest, rfl, habsent⟩
        · exact Or.inl (List.forall_mem_cons.mpr ⟨hkey, habsent⟩)
      · exact Or.inr ⟨m :: before, found, after, rfl, hafter⟩

theorem Opens.not_whiteSpace {c : Char} (h : Opens c) : isWhiteSpace c = false := by
  rcases h with hdigit | hother
  · have hrange := Char.isDigit_iff_toNat.mp hdigit
    have hlow : 48 ≤ c.toNat := hrange.1
    have hhigh : c.toNat ≤ 57 := hrange.2
    simp only [isWhiteSpace, whiteSpaceRanges, List.any_cons, List.any_nil, Bool.or_false,
      Bool.or_eq_false_iff, Bool.and_eq_false_iff, decide_eq_false_iff_not]
    omega
  · simp only [List.mem_cons, List.not_mem_nil, or_false] at hother
    rcases hother with rfl | rfl | rfl | rfl | rfl | rfl | rfl <;> rfl

end Json

namespace Options

/-- What stands under the key of the file name, and what it comes to. -/
inductive Names : Json → Except OptionsError Options → Prop
  | null : Names .null (.ok {})
  | string {name : String} : Names (.string name) (.ok { fileName := some name })
  | other {found : Json} (hnull : found ≠ .null) (hstring : ∀ name, found ≠ .string name) :
      Names found (.error (.mistyped found))

/-- What a JSON value comes to as options. -/
inductive Means : Json → Except OptionsError Options → Prop
  | null : Means .null (.ok {})
  | absent {members : List (String × Json)} (h : ∀ m ∈ members, m.1 ≠ "fileName") :
      Means (.object members) (.ok {})
  | last {before after : List (String × Json)} {found : Json}
      {result : Except OptionsError Options} (h : ∀ m ∈ after, m.1 ≠ "fileName")
      (hfound : Names found result) :
      Means (.object (before ++ ("fileName", found) :: after)) result
  | boolean {value : Bool} : Means (.bool value) (.error (.notAnObject .boolean))
  | number {value : Number} : Means (.number value) (.error (.notAnObject .number))
  | string {value : String} : Means (.string value) (.error (.notAnObject .string))
  | array {items : List Json} : Means (.array items) (.error (.notAnObject .array))

theorem ofJson_of_names {members : List (String × Json)} {found : Json}
    {result : Except OptionsError Options} (hmember : Json.member? nameKey members = some found)
    (h : Names found result) : ofJson (.object members) = result := by
  rw [ofJson, hmember]
  cases h with
  | null | string => rfl
  | other hnull hstring =>
      cases found with
      | null => exact absurd rfl hnull
      | string name => exact absurd rfl (hstring name)
      | bool | number | array | object => rfl

theorem ofJson_of_means {v : Json} {result : Except OptionsError Options} (h : Means v result) :
    ofJson v = result := by
  cases h with
  | null | boolean | number | string | array => rfl
  | absent h =>
      have hmember : Json.member? nameKey _ = none := Json.member?_of_absent h
      rw [ofJson, hmember]
  | last h hfound => exact ofJson_of_names (Json.member?_of_last h) hfound

theorem exists_names (found : Json) : ∃ result, Names found result := by
  cases found with
  | null => exact ⟨_, .null⟩
  | string name => exact ⟨_, .string⟩
  | bool | number | array | object =>
      refine ⟨_, .other ?_ ?_⟩
      · intro h
        cases h
      · intro name h
        cases h

theorem exists_means (v : Json) : ∃ result, Means v result := by
  cases v with
  | null => exact ⟨_, .null⟩
  | bool value => exact ⟨_, .boolean⟩
  | number value => exact ⟨_, .number⟩
  | string value => exact ⟨_, .string⟩
  | array items => exact ⟨_, .array⟩
  | object members =>
      rcases Json.absent_or_last "fileName" members with h | ⟨before, found, after, rfl, h⟩
      · exact ⟨_, .absent h⟩
      · obtain ⟨result, hresult⟩ := exists_names found
        exact ⟨result, .last h hresult⟩

/-- The meaning of a value is unique, and is what the options are read as. -/
theorem ofJson_eq_iff {v : Json} {result : Except OptionsError Options} :
    ofJson v = result ↔ Means v result := by
  constructor
  · rintro rfl
    obtain ⟨result, hmeans⟩ := exists_means v
    rwa [ofJson_of_means hmeans]
  · exact ofJson_of_means

/-- The text of a value is not blank, and is read as the value. -/
theorem read_document {dialect : Json.Dialect} (hdialect : dialect.PartOf .any) {v : Json}
    {text : String} (h : Json.Document dialect v text.toList) : read text = ofJson v := by
  have hparse := Json.parse_document hdialect h
  have hblank : text.toList.all isWhiteSpace = false := by
    generalize text.toList = chars at h
    obtain @⟨before, s, after, hbefore, hspelled, hafter⟩ := h
    obtain ⟨c, more, rfl, hc⟩ := Json.opens_spelled hdialect hspelled
    rw [List.all_eq_false]
    refine ⟨c, by simp, ?_⟩
    rw [hc.not_whiteSpace]
    decide
  rw [read, hblank, hparse]
  rfl

/-- Reading undoes printing. Every value of short integers, strings and words, with at most
127 brackets open at once, can be printed; and from each text in which it is printed,
whatever the blanks between its parts, the options are read that the value means. -/
theorem read_printed {v : Json} (h : Json.Printable 127 v) :
    (∃ text : String, Json.Document .canonical v text.toList) ∧
      ∀ (text : String) (result : Except OptionsError Options),
        Json.Document .canonical v text.toList → (read text = result ↔ Means v result) := by
  refine ⟨Json.exists_document h, ?_⟩
  intro text result hdocument
  rw [read_document Json.Dialect.canonical_partOf_any hdocument]
  exact ofJson_eq_iff

theorem read_printed_repeated :
    let v : Json := .object [("fileName", .number (.int (-7))),
      ("a", .object [("fileName", .null)]), ("fileName", .string "b.tsx"), ("c", .array [])]
    ∃ text : String, Json.Document .canonical v text.toList ∧
      read text = .ok { fileName := some "b.tsx" } := by
  intro v
  have hshort : (-7 : Int).natAbs < Nat.pow 10 18 := by decide
  have hprintable : Json.Printable 127 v := by
    refine .object ?_
    simp only [List.forall_mem_cons]
    refine ⟨.integer hshort, .object ?_, .string, .array ?_, ?_⟩
    · simpa using Json.Printable.null
    · simp
    · simp
  obtain ⟨⟨text, htext⟩, hread⟩ := read_printed hprintable
  refine ⟨text, htext, (hread text _ htext).mpr ?_⟩
  exact @Means.last [_, _] _ _ _ (by simp) .string

end Options

end JsxProvenance
