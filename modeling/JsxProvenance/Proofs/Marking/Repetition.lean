import JsxProvenance.Proofs.Marking.Refinement

/-!
Marking a program several times. Each run works on what the run before it left, and
yet what it does can be said of the first program alone. The induction is on the names
still to come; the names that are done stand in the program as marks, and these are
what it generalizes over. The elements that a later run meets are those of the first
program with marks in them, so the run finds the same positions and forms, in the same
order, and none that an earlier run brought in.
-/

namespace JsxProvenance

/-- The same record under another file name. -/
def Record.under (fileName : String) : Record → Record
  | .noPosition _ form => .noPosition fileName form
  | .added _ counts => .added fileName counts
  | .optionsIgnored error => .optionsIgnored error

namespace SourceMap

variable {map : SourceMap}

theorem elements_mapElements_markAll (names : List String) (program : Program) :
    (program.mapElements (map.markAll names)).elements =
      program.elements.map (OpeningElement.mapElements (map.markAll names)) :=
  Program.elements_mapElements (nested_markAll names) program

/-- Marks change neither which elements have a position nor their forms. -/
theorem same_mapElements_markAll (names : List String) (elements : List Element) :
    ∀ e ∈ elements,
      (e.mapElements (map.markAll names)).span.isDummy = e.span.isDummy ∧
        (e.mapElements (map.markAll names)).form = e.form := by
  intro e _
  rw [span_mapElements_markAll, form_mapElements_markAll]
  exact ⟨rfl, rfl⟩

/-- One more run over a program that was marked before. -/
theorem run_mapElements_markAll {marker : Marker} {program : Program} (names : List String)
    (hplaced : ∀ e ∈ program.elements, ¬ marker.Unplaced e) :
    marker.run (program.mapElements (marker.map.markAll names)) =
      ⟨.ok (program.mapElements (marker.map.markAll (names ++ [marker.fileName]))),
        marker.skipRecords program.elements ++
          [.added marker.fileName (Counts.ofElements program.elements)]⟩ := by
  have hagain : ∀ e ∈ (program.mapElements (marker.map.markAll names)).elements,
      ¬ marker.Unplaced e := by
    intro e member
    rw [elements_mapElements_markAll] at member
    obtain ⟨original, horiginal, rfl⟩ := List.mem_map.mp member
    simpa only [Marker.Unplaced, span_mapElements_markAll] using hplaced original horiginal
  have hmarks : (program.mapElements (marker.map.markAll names)).mapElements
        (marker.map.markAll [marker.fileName]) =
      program.mapElements (marker.map.markAll (names ++ [marker.fileName])) :=
    Program.mapElements_mapElements (mapElements_markAll names [marker.fileName]) program
  rw [Marker.run_of_placed hagain, Marker.mark_eq_markAll, hmarks,
    elements_mapElements_markAll, Marker.skipRecords_map (same_mapElements_markAll names _),
    Counts.ofElements_map (same_mapElements_markAll names _)]

/-- Runs over a program that was marked before under the names `done`. -/
theorem runs_mapElements_markAll {program : Program} (names : List String)
    (hplaced : ∀ fileName, ∀ e ∈ program.elements, ¬ Marker.Unplaced ⟨fileName, map⟩ e)
    (done : List String) :
    map.runs names (program.mapElements (map.markAll done)) =
      names.zipIdx.map fun (fileName, i) =>
        (fileName, ⟨.ok (program.mapElements (map.markAll (done ++ names.take (i + 1)))),
          Marker.skipRecords ⟨fileName, map⟩ program.elements ++
            [.added fileName (Counts.ofElements program.elements)]⟩) := by
  induction names generalizing done with
  | nil => rfl
  | cons fileName rest ih =>
      -- the marks of this run join those that stand already
      have hrun := run_mapElements_markAll done (hplaced fileName)
      have hrest := ih (done ++ [fileName])
      simp only [runs, hrun, hrest, List.zipIdx_cons, List.map_cons, List.zipIdx_succ,
        List.map_map, List.take_succ_cons, List.take_zero]
      congr 1
      apply List.map_congr_left
      intro entry _
      simp only [Function.comp_apply, List.append_assoc, List.singleton_append]

theorem map_under_skipRecords (map : SourceMap) (before after : String)
    (elements : List Element) :
    (Marker.skipRecords ⟨before, map⟩ elements).map (Record.under after) =
      Marker.skipRecords ⟨after, map⟩ elements := by
  simp only [Marker.skipRecords, List.map_map]
  rfl

/-- If the first of some runs does not fail, then none of them does. The program after
each run has the marks of all runs so far, and the run's log is that of the first run
under the run's own name. In the end, an element with a position has one mark for each
name behind its own attributes, in the order of the runs and with the same line. -/
theorem runs_of_first_ok {map : SourceMap} {first : String} {program marked : Program}
    (h : (Marker.run ⟨first, map⟩ program).result = .ok marked) (rest : List String) :
    let names := first :: rest
    let last := program.mapElements (map.markAll names)
    (map.runs names program = names.zipIdx.map fun (fileName, i) =>
        (fileName, ⟨.ok (program.mapElements (map.markAll (names.take (i + 1)))),
          (Marker.run ⟨first, map⟩ program).records.map (Record.under fileName)⟩)) ∧
      (map.runs names program).getLast?.map (·.2.result) = some (.ok last) ∧
      last.elements = program.elements.map (OpeningElement.mapElements (map.markAll names)) ∧
      ∀ e ∈ program.elements,
        (e.span.isDummy = true →
          e.mapElements (map.markAll names) =
            e.mapParts (Tree.mapElements (map.markAll names))) ∧
        (e.span.isDummy = false →
          ∃ line, map.lineAt? e.span.lo.toNat = some line ∧
            e.mapElements (map.markAll names) =
              { e.mapParts (Tree.mapElements (map.markAll names)) with
                attributes := e.attributes.map (Tree.mapElements (map.markAll names)) ++
                  names.map fun fileName => Marking.sourceAttribute fileName line }) := by
  intro names last
  have hplaced := Marker.placed_of_run_ok h
  have hstart : program.mapElements (map.markAll []) = program :=
    Program.mapElements_eq_self program fun e _ => markAll_nil e
  have hruns : map.runs names program = names.zipIdx.map fun (fileName, i) =>
      (fileName, ⟨.ok (program.mapElements (map.markAll (names.take (i + 1)))),
        (Marker.run ⟨first, map⟩ program).records.map (Record.under fileName)⟩) := by
    have hall := runs_mapElements_markAll names (fun _ => hplaced) []
    rw [hstart] at hall
    rw [hall, Marker.run_of_placed hplaced]
    simp only [List.map_append, map_under_skipRecords, List.map_cons, List.map_nil,
      Record.under, List.nil_append]
  refine ⟨hruns, ?_, elements_mapElements_markAll names program, ?_⟩
  · have htake : names.take (0 + names.length - 1 + 1) = names := by
      simp [names]
    obtain ⟨final, hfinal⟩ : ∃ final, names.getLast? = some final :=
      ⟨_, List.getLast?_cons⟩
    rw [hruns, List.getLast?_map, List.getLast?_zipIdx, hfinal]
    simp only [Option.map_some, htake, last]
  · intro e member
    refine ⟨mapElements_markAll_of_dummy names, ?_⟩
    intro hdummy
    obtain ⟨line, hline⟩ := Marker.line_of_placed hdummy (hplaced e member)
    exact ⟨line, hline, mapElements_markAll_of_line names hdummy hline⟩

theorem runs_of_first_ok_twoTags :
    let map : SourceMap := .ofFiles [⟨.anonymous, "ab\ncd"⟩]
    let program := Marker.twoTags .dummy ⟨4, 6⟩
    let last := program.mapElements (map.markAll ["a.tsx", "b.tsx"])
    ∃ marked inner, (Marker.run ⟨"a.tsx", map⟩ program).result = .ok marked ∧
      (map.runs ["a.tsx", "b.tsx"] program).getLast?.map (·.2.result) = some (.ok last) ∧
      last.elements[0]? = some inner ∧
      inner.attributes.map Tree.place? = [some ("a.tsx", .int 2), some ("b.tsx", .int 2)] := by
  intro map program last
  have h : (Marker.run ⟨"a.tsx", map⟩ program).result =
      .ok (program.mapElements (Marker.mark ⟨"a.tsx", map⟩)) := rfl
  obtain ⟨_, hlast, helements, hmarks⟩ := runs_of_first_ok h ["b.tsx"]
  obtain ⟨line, hline, hinner⟩ := (hmarks _ (.head _)).2 rfl
  obtain rfl : 2 = line := Option.some.inj hline
  refine ⟨_, _, h, hlast, congrArg (·[0]?) helements, ?_⟩
  exact congrArg (·.attributes.map Tree.place?) hinner

end SourceMap

end JsxProvenance
