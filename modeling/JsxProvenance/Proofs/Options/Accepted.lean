import JsxProvenance.Proofs.Json.Soundness
import JsxProvenance.Proofs.Options.Printed

/-!
Options come from JSON texts and from nothing else. A text with more in it than white space
is taken for options, or refused for the kind of value that it holds, only if the whole of it
is a document of the grammar; and then the answer is the meaning of the one value that the
grammar gives it. What is not a document is malformed.

Main statement: `Options.read_eq_iff_document`.
-/

namespace JsxProvenance

namespace Options

/-- An answer that does not blame the text comes from a value that was read. -/
theorem exists_value_of_read {text : String} (hblank : text.toList.all isWhiteSpace = false)
    {result : Except OptionsError Options}
    (hresult : ∀ flaw place, result ≠ .error (.malformed flaw place))
    (h : read text = result) : ∃ v, Json.parse text.toList = .ok v ∧ ofJson v = result := by
  rw [read, hblank, if_neg (by decide)] at h
  cases hparse : Json.parse text.toList with
  | error fault =>
      rw [hparse] at h
      exact absurd h.symm (hresult _ _)
  | ok v =>
      rw [hparse] at h
      exact ⟨v, rfl, h⟩

/-- A text that is not blank gives an answer, other than that it is malformed, exactly if it
is as a whole the document of one value, with at most 127 brackets open at once, and the
answer is what that value means: the default for `null`, the name in the last member that
names the file for an object, and the kind of any other value. -/
theorem read_eq_iff_document {text : String} (hblank : text.toList.all isWhiteSpace = false)
    {result : Except OptionsError Options}
    (hresult : ∀ flaw place, result ≠ .error (.malformed flaw place)) :
    read text = result ↔
      ∃ v, (∀ w, Json.Document .any w text.toList ↔ w = v) ∧ Means v result := by
  constructor
  · intro hread
    obtain ⟨v, hparse, hvalue⟩ := exists_value_of_read hblank hresult hread
    refine ⟨v, ?_, ofJson_eq_iff.mp hvalue⟩
    intro w
    rw [← Json.parse_eq_ok_iff, hparse, Except.ok.injEq]
    exact eq_comm
  · rintro ⟨v, hunique, hmeans⟩
    have hdocument : Json.Document .any v text.toList := (hunique v).mpr rfl
    rw [read_document Json.Dialect.any_partOf_any hdocument]
    exact ofJson_eq_iff.mpr hmeans

/-- A key with an escape in it, and an earlier member under the same key. -/
theorem read_eq_iff_document_escaped :
    ∃ v, (∀ w, Json.Document .any w
        " \x7b\"fileName\": [true],\"f\\u0069leName\":\"b.tsx\"\x7d\n".toList ↔ w = v) ∧
      Means v (.ok { fileName := some "b.tsx" }) := by
  have hread : read " \x7b\"fileName\": [true],\"f\\u0069leName\":\"b.tsx\"\x7d\n" =
      .ok { fileName := some "b.tsx" } := rfl
  have hresult : ∀ flaw place, (.ok { fileName := some "b.tsx" } : Except OptionsError Options) ≠
      .error (.malformed flaw place) := by
    intro flaw place h
    cases h
  exact (read_eq_iff_document rfl hresult).mp hread

end Options

end JsxProvenance
