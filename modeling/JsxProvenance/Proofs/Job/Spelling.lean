import JsxProvenance.Proofs.Job.Naming
import JsxProvenance.Proofs.Json.Soundness
import JsxProvenance.Proofs.Options.Printed

/-!
A file name comes through in any spelling. In the text of the options each character of
the name may stand for itself, or be written as a short escape, or as a code unit in
hexadecimal digits of either case, or as a pair of them; the key may be written in as many
ways. All these texts hold the same options, and a job that is given one of them writes
the name, character for character, into each of its marks.

Main statement: `Job.run_spelled_name`.
-/

namespace JsxProvenance

namespace Quoted

/-- What is read as a string up to the end of a text is a literal of the string. -/
theorem literal_of_readString {s : List Char} {value : String}
    (h : readString s = .ok (value, [])) : Literal value ('"' :: s) := by
  obtain ⟨text, hliteral, htext⟩ := exists_literal_of_readString h
  rwa [htext, List.append_nil]

end Quoted

namespace Options

/-- The text of an object with one member, with any blanks between its parts. -/
inductive OneMember (key value : List Char) : List Char → Prop
  | mk {front inside beforeColon afterColon beforeClose behind : List Char}
      (hfront : Blanks front) (hinside : Blanks inside) (hbeforeColon : Blanks beforeColon)
      (hafterColon : Blanks afterColon) (hbeforeClose : Blanks beforeClose)
      (hbehind : Blanks behind) :
      OneMember key value (front ++ ('\x7b' :: (inside ++
        (key ++ beforeColon ++ ':' :: afterColon ++ value) ++ beforeClose) ++ ['\x7d']) ++ behind)

theorem OneMember.document {key value text : List Char} {name member : String}
    (h : OneMember key value text) (hkey : Quoted.Literal name key)
    (hvalue : Quoted.Literal member value) :
    Json.Document .any (.object [(name, .string member)]) text := by
  obtain ⟨hfront, hinside, hbeforeColon, hafterColon, hbeforeClose, hbehind⟩ := h
  have hstring : Json.Spelled .any 126 (.string member) value :=
    Json.spelled_of_scalar 126 (.string hvalue)
  have hmember : Json.Member .any (Json.Spelled .any 126) (name, .string member) _ :=
    .mk hkey hbeforeColon hafterColon hstring
  have hobject : Json.Spelled .any 127 (.object [(name, .string member)]) _ :=
    Or.inr (.object (.last hinside hmember hbeforeClose))
  exact .mk hfront hobject hbehind

/-- One member under the key of the file name, however both are spelled, gives the name. -/
theorem read_of_oneMember {key value : List Char} {name text : String}
    (h : OneMember key value text.toList) (hkey : Quoted.Literal "fileName" key)
    (hname : Quoted.Literal name value) : read text = .ok { fileName := some name } := by
  rw [read_document Json.Dialect.any_partOf_any (h.document hkey hname)]
  exact ofJson_of_means (@Means.last [] [] _ _ (by simp) .string)

end Options

namespace Job

/-- Every spelling of a file name is read as that name. Options with one member, in which
the key and the name are spelled in any way, give that name and no other option; a job with
them is the run under the name, with no record more, and the last attribute of each element
that it marks gives the name and the line of the element. -/
theorem run_spelled_name {key value : List Char} {name text : String}
    (hkey : Quoted.Literal "fileName" key) (hname : Quoted.Literal name value)
    (htext : Options.OneMember key value text.toList) (map : SourceMap)
    (hostName : Option String) (program : Program) :
    let job : Job := ⟨map, some text, hostName, program⟩
    let marker : Marker := ⟨name, map⟩
    let inside := OpeningElement.mapParts (Tree.mapElements marker.mark)
    Options.read text = .ok { fileName := some name } ∧
      job.run = marker.run program ∧
      ∀ marked, job.run.result = .ok marked →
        marked.elements.length = program.elements.length ∧
        ∀ (i : Nat) (e : Element), program.elements[i]? = some e →
          (e.span.isDummy = true → marked.elements[i]? = some (inside e)) ∧
          (e.span.isDummy = false →
            ∃ (changed : Element) (added : Tree) (line : Nat),
              map.lineAt? e.span.lo.toNat = some line ∧
              marked.elements[i]? = some changed ∧
              changed = { inside e with attributes := (inside e).attributes ++ [added] } ∧
              changed.attributes.getLast?.bind Tree.place? =
                some (name, .int (Scaled.nearest line 1).toNat)) := by
  intro job marker inside
  have hread := Options.read_of_oneMember htext hkey hname
  have hrun : job.run = marker.run program := run_of_name hread
  refine ⟨hread, hrun, ?_⟩
  intro marked hmarked
  rw [hrun] at hmarked
  constructor
  · rw [Marker.elements_of_run_ok hmarked, List.length_map]
  · intro i e he
    constructor
    · intro hdummy
      rw [Marker.getElem?_elements_of_run_ok hmarked he, Marker.mapElements_mark_of_dummy hdummy]
    · intro hposition
      exact Marker.exists_mark_of_run_ok hmarked he hposition

/-- A key with an escaped letter in it, and a name in which a backslash is escaped, a slash
is escaped without need, a line feed is a code unit, and one character is a pair of them. -/
theorem run_spelled_name_mixed :
    let text := "\x7b\"\\u0066ile\\u004Eame\":\"C:\\\\a\\/\\u000a\\uD83d\\uDe00\"\x7d"
    let name := "C:\\a/\n😀"
    let map : SourceMap := .ofFiles [⟨.anonymous, "ab\ncd"⟩]
    let job : Job := ⟨map, some text, some "b.tsx", Marker.twoTags ⟨1, 9⟩ ⟨4, 6⟩⟩
    ∃ marked inner, Options.read text = .ok { fileName := some name } ∧
      job.run = Marker.run ⟨name, map⟩ job.program ∧
      job.run.result = .ok marked ∧ marked.elements[0]? = some inner ∧
      inner.attributes.getLast?.bind Tree.place? = some (name, .int 2) := by
  intro text name map job
  let key := "\"\\u0066ile\\u004Eame\"".toList
  let value := "\"C:\\\\a\\/\\u000a\\uD83d\\uDe00\"".toList
  have hkey : Quoted.Literal "fileName" key := Quoted.literal_of_readString rfl
  have hname : Quoted.Literal name value := Quoted.literal_of_readString rfl
  have htext : text.toList =
      [] ++ ('\x7b' :: ([] ++ (key ++ [] ++ ':' :: [] ++ value) ++ []) ++ ['\x7d']) ++ [] := by
    decide
  have hmember : Options.OneMember key value text.toList := by
    rw [htext]
    exact .mk Json.blanks_nil Json.blanks_nil Json.blanks_nil Json.blanks_nil Json.blanks_nil
      Json.blanks_nil
  obtain ⟨hread, hrun, hmarks⟩ := run_spelled_name hkey hname hmember map job.hostName job.program
  have hresult : job.run.result = .ok (job.program.mapElements (Marker.mark ⟨name, map⟩)) :=
    congrArg Outcome.result hrun
  obtain ⟨inner, _, line, hline, hinner, _, hplace⟩ := ((hmarks _ hresult).2 0 _ rfl).2 rfl
  obtain rfl : 2 = line := Option.some.inj hline
  exact ⟨_, inner, hread, hrun, hresult, hinner, hplace⟩

end Job

end JsxProvenance
