import JsxProvenance.Proofs.Job.Naming
import JsxProvenance.Proofs.Marking.LineNumber
import JsxProvenance.Tree.Spans

/-!
The name of a program that nobody names, against the positions in it. Nothing but the
program's own span is asked for the file. A program with a position of its own is thus
named after the file that all its positions are in, if there is such a file. A program
without one is named `unknown`, whatever the positions further down: these are looked up
for their lines and for nothing else, so a program that lost its own span gets marks with
good line numbers and no file to go with them.

Main statement: `Job.run_fallback_name`.
-/

namespace JsxProvenance

/-- The span starts in the file with the given number: no later file starts at or before
its position. -/
def Span.StartsIn (files : List SourceFile) (number : Nat) (span : Span) : Prop :=
  SourceMap.startOf files number ≤ span.lo.toNat ∧
    ∀ later < files.length, number < later →
      span.lo.toNat < SourceMap.startOf files later

instance (files : List SourceFile) (number : Nat) (span : Span) :
    Decidable (span.StartsIn files number) :=
  inferInstanceAs (Decidable (_ ∧ _))

theorem Span.StartsIn.not_outside {files : List SourceFile} {number : Nat} {file : SourceFile}
    {span : Span} (h : span.StartsIn files number) (hfile : files[number]? = some file) :
    ¬ span.Outside files := by
  have hone : 1 ≤ span.lo :=
    UInt32.le_iff_toNat_le.mpr ((SourceMap.one_le_startOf files number).trans h.1)
  have hfiles : files ≠ [] := by
    rintro rfl
    cases hfile
  exact Marker.not_outside_of_position hfiles (Or.inr hone)

/-- The span of an element is one of the spans of the tree that it is in. -/
theorem Tree.span_mem_spans {tree : Tree} {e : Element} (h : e ∈ tree.elements) :
    e.span ∈ tree.spans := by
  induction tree using Tree.induction with
  | null | bool | number | text | span => cases h
  | list items ih =>
      rw [Tree.elements, Tree.elementsOfItems_eq_flatMap] at h
      obtain ⟨item, member, he⟩ := List.mem_flatMap.mp h
      rw [Tree.spans, Tree.spansOfItems_eq_flatMap]
      exact List.mem_flatMap.mpr ⟨item, member, ih item member he⟩
  | node kind fields ih | record fields ih =>
      rw [Tree.elements, Tree.elementsOfFields_eq_flatMap] at h
      obtain ⟨field, member, he⟩ := List.mem_flatMap.mp h
      rw [Tree.spans, Tree.spansOfFields_eq_flatMap]
      exact List.mem_flatMap.mpr ⟨field, member, ih field member he⟩
  | element outer htag hattributes harguments =>
      simp only [Tree.elements, OpeningElement.elements_eq, OpeningElement.nested,
        List.mem_append, List.mem_flatMap, List.mem_singleton] at h
      simp only [Tree.spans, OpeningElement.spans_eq, List.mem_append, List.mem_cons,
        List.mem_flatMap]
      rcases h with ((he | ⟨item, member, he⟩) | he) | rfl
      · exact Or.inl (Or.inl (htag he))
      · exact Or.inl (Or.inr (Or.inr ⟨item, member, hattributes item member he⟩))
      · exact Or.inr (harguments he)
      · exact Or.inl (Or.inr (Or.inl rfl))

theorem Program.span_mem_spans {program : Program} {e : Element} (h : e ∈ program.elements) :
    e.span ∈ program.spans := by
  rw [Program.elements, Tree.elementsOfItems_eq_flatMap] at h
  simp only [Program.spans, Tree.spansOfItems_eq_flatMap, List.mem_append, List.mem_cons]
  rcases List.mem_append.mp h with hbody | hinterpreter
  · obtain ⟨item, member, he⟩ := List.mem_flatMap.mp hbody
    exact Or.inl (Or.inr (List.mem_flatMap.mpr ⟨item, member, Tree.span_mem_spans he⟩))
  · exact Or.inr (Tree.span_mem_spans hinterpreter)

namespace Job

/-- The name that the program's own span leads to, if it is known which file the span starts
in when it is not dummy. -/
theorem run_of_ownFile (job : Job) {warnings : List Record} {files : List SourceFile}
    {number : Nat} {file : SourceFile} (h : Unnamed job.options warnings)
    (hhost : job.hostName = none) (hmap : job.map = .ofFiles files)
    (hfile : files[number]? = some file)
    (hspan : job.program.span.isDummy = false → job.program.span.StartsIn files number) :
    job.run =
      (Marker.run ⟨if job.program.span.isDummy then "unknown" else file.name.display,
        job.map⟩ job.program).prepend warnings := by
  cases hdummy : job.program.span.isDummy with
  | true => exact job.run_of_dummy h hhost hdummy
  | false =>
      obtain ⟨hstart, hlater⟩ := hspan hdummy
      have hfound := SourceMap.fileAt?_ofFiles_of_last hfile hstart fun later hlt hlength =>
        hlater later hlength hlt
      rw [job.run_of_span h hhost hdummy, hmap, hfound]
      rfl

/-- What a program is marked with if neither the options nor the host give a name and all
its positions are in one file. The job succeeds, and each mark gives the name of that file,
unless the program's own span is dummy: then each mark gives `unknown`, be there positions
further down or not. -/
theorem run_fallback_name {files : List SourceFile} {options : Option String}
    {warnings : List Record} (hunnamed : Unnamed options warnings) {number : Nat}
    {file : SourceFile} (hfile : files[number]? = some file) {program : Program}
    (hspans : ∀ span ∈ program.spans, span.isDummy = false → span.StartsIn files number) :
    let name := if program.span.isDummy then "unknown" else file.name.display
    let marker : Marker := ⟨name, .ofFiles files⟩
    let inside := OpeningElement.mapParts (Tree.mapElements marker.mark)
    ∃ marked, (Job.run ⟨.ofFiles files, options, none, program⟩).result = .ok marked ∧
      ∀ (i : Nat) (e : Element), program.elements[i]? = some e → e.span.isDummy = false →
        ∃ (changed : Element) (added : Tree) (line : Nat),
          marked.elements[i]? = some changed ∧
          changed = { inside e with attributes := (inside e).attributes ++ [added] } ∧
          changed.attributes.getLast?.bind Tree.place? = some (name, .int line) := by
  intro name marker inside
  have hown : program.span.isDummy = false → program.span.StartsIn files number :=
    hspans program.span List.mem_cons_self
  have hrun := run_of_ownFile ⟨.ofFiles files, options, none, program⟩ hunnamed rfl rfl
    hfile hown
  have hplaced : ∀ e ∈ program.elements, ¬ marker.Unplaced e := by
    intro e member
    rw [Marker.unplaced_ofFiles_iff]
    intro houtside
    have hin := hspans e.span (Program.span_mem_spans member) houtside.1
    exact hin.not_outside hfile houtside
  have hresult : (marker.run program).result = .ok (program.mapElements marker.mark) :=
    congrArg Outcome.result (Marker.run_of_placed hplaced)
  refine ⟨program.mapElements marker.mark, ?_, ?_⟩
  · rw [hrun]
    exact hresult
  · intro i e he hposition
    obtain ⟨changed, added, line, hline, hchanged, hadded, hplace⟩ :=
      Marker.exists_mark_of_run_ok hresult he hposition
    rw [Marker.nearest_of_lineAt? hline] at hplace
    exact ⟨changed, added, line, hchanged, hadded, hplace⟩

theorem run_fallback_name_secondFile :
    let files : List SourceFile := [⟨.path "a.tsx", "ab"⟩, ⟨.path "b.tsx", "cd"⟩]
    let program := Marker.twoTags ⟨4, 6⟩ ⟨5, 6⟩
    ∃ marked changed, (Job.run ⟨.ofFiles files, none, none, program⟩).result = .ok marked ∧
      marked.elements[0]? = some changed ∧
      ∃ line, changed.attributes.getLast?.bind Tree.place? = some ("b.tsx", .int line) := by
  intro files program
  have hfile : files[1]? = some ⟨.path "b.tsx", "cd"⟩ := rfl
  have hspans : ∀ span ∈ program.spans, span.isDummy = false → span.StartsIn files 1 := by
    decide
  obtain ⟨marked, hresult, hmarks⟩ := run_fallback_name .absent hfile hspans
  obtain ⟨changed, _, line, hchanged, _, hplace⟩ := hmarks 0 _ rfl rfl
  exact ⟨marked, changed, hresult, hchanged, line, hplace⟩

/-- The script `x;` and, on its second line, `<a/>;`. A file holds every position in it, and
still it is not named after the file: its own span is dummy. -/
theorem run_fallback_name_ownSpanLost :
    let file : SourceFile := ⟨.custom "from-map.tsx", "x;\n<a/>;"⟩
    let identifier (span : Span) (name : String) : Tree := .node { name := "Identifier" }
      [("span", .span span), ("ctxt", .number (.int 0)), ("value", .text name),
        ("optional", .bool false)]
    let statement (span : Span) (expression : Tree) : Tree :=
      .node { name := "ExpressionStatement" } [("span", .span span), ("expression", expression)]
    let opening : Element := ⟨identifier ⟨5, 6⟩ "a", ⟨4, 8⟩, [], true, .null⟩
    let element : Tree := .node { name := "JSXElement" }
      [("span", .span ⟨4, 8⟩), ("opening", .element opening), ("children", .list []),
        ("closing", .null)]
    let program : Program := ⟨.script, .dummy,
      [statement ⟨1, 3⟩ (identifier ⟨1, 2⟩ "x"), statement ⟨4, 9⟩ element], .null⟩
    (∃ span ∈ program.spans, span.isDummy = false) ∧
      (∀ span ∈ program.spans, span.isDummy = false →
        1 ≤ span.lo ∧ span.StartsIn [file] 0 ∧
          span.hi.toNat ≤ SourceMap.startOf [file] 0 + file.bytes.length) ∧
      ∃ marked changed,
        (Job.run ⟨.ofFiles [file], none, none, program⟩).result = .ok marked ∧
        marked.elements[0]? = some changed ∧
        changed.attributes.getLast?.bind Tree.place? = some ("unknown", .int 2) ∧
        "unknown" ≠ file.name.display := by
  intro file identifier statement opening element program
  have hrun : Job.run ⟨.ofFiles [file], none, none, program⟩ = _ :=
    run_of_dummy _ .absent rfl rfl
  let marker : Marker := ⟨"unknown", .ofFiles [file]⟩
  have hresult : (marker.run program).result = .ok (program.mapElements marker.mark) := rfl
  obtain ⟨changed, _, line, hline, hchanged, _, hplace⟩ :=
    Marker.exists_mark_of_run_ok hresult (i := 0) rfl rfl
  have hsecond : (SourceMap.ofFiles [⟨.custom "from-map.tsx", "x;\n<a/>;"⟩]).lineAt? 4 = some 2 :=
    rfl
  obtain rfl : 2 = line := Option.some.inj (hsecond.symm.trans hline)
  refine ⟨by decide, by decide, _, changed, ?_, hchanged, hplace, by decide⟩
  rw [hrun]
  exact hresult

end Job

end JsxProvenance
