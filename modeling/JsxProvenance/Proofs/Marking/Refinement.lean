import JsxProvenance.Marking.Place
import JsxProvenance.Proofs.Marking.Walk

/-!
A run against the plain map. The walk threads counts, records and a failure through
the tree, and yet a run that does not fail returns the same program as a map that
knows of none of these: each element that has a position gets one more attribute, and
all else is only mapped inside.

Runs can follow one another, so the marks of several names are treated at once:
`SourceMap.markAll` puts one mark for each name. A mark has no elements in it and does
not move a span. A later run therefore meets the same elements, with the same
positions, as the first one did, and the marks of the runs add up in their order.
-/

namespace JsxProvenance

@[simp] theorem Marking.elements_sourceAttribute (fileName : String) (line : Nat) :
    (Marking.sourceAttribute fileName line).elements = [] := rfl

namespace SourceMap

/-- The marks that runs under some names put on an element with a span. -/
def marks (map : SourceMap) (names : List String) (span : Span) : List Tree :=
  if span.isDummy then []
  else
    match map.lineAt? span.lo.toNat with
    | none => []
    | some line => names.map fun name => Marking.sourceAttribute name line

/-- Marks an element once for each name, whatever is nested in it. -/
def markAll (map : SourceMap) (names : List String) (e : Element) : Element :=
  { e with attributes := e.attributes ++ map.marks names e.span }

variable {map : SourceMap}

theorem marks_of_dummy (names : List String) {span : Span} (h : span.isDummy = true) :
    map.marks names span = [] := by
  rw [marks, if_pos h]

theorem marks_of_line (names : List String) {span : Span} {line : Nat}
    (hdummy : span.isDummy = false) (hline : map.lineAt? span.lo.toNat = some line) :
    map.marks names span = names.map fun name => Marking.sourceAttribute name line := by
  simp [marks, hdummy, hline]

theorem markAll_nil (e : Element) : map.markAll [] e = e := by
  have hmarks : map.marks [] e.span = [] := by
    rw [marks]
    split
    · rfl
    · cases map.lineAt? e.span.lo.toNat <;> rfl
  rw [markAll, hmarks, List.append_nil]

theorem marks_append (before after : List String) (span : Span) :
    map.marks (before ++ after) span = map.marks before span ++ map.marks after span := by
  cases hdummy : span.isDummy with
  | true => simp only [marks_of_dummy _ hdummy, List.append_nil]
  | false =>
      cases hline : map.lineAt? span.lo.toNat with
      | none => simp [marks, hline]
      | some line => simp only [marks_of_line _ hdummy hline, List.map_append]

theorem elements_of_mem_marks {names : List String} {span : Span} {tree : Tree}
    (h : tree ∈ map.marks names span) : tree.elements = [] := by
  cases hdummy : span.isDummy with
  | true => simp [marks_of_dummy _ hdummy] at h
  | false =>
      cases hline : map.lineAt? span.lo.toNat with
      | none => simp [marks, hline] at h
      | some line =>
          rw [marks_of_line _ hdummy hline] at h
          obtain ⟨name, _, rfl⟩ := List.mem_map.mp h
          exact Marking.elements_sourceAttribute name line

theorem map_mapElements_marks (f : Element → Element) (names : List String) (span : Span) :
    (map.marks names span).map (Tree.mapElements f) = map.marks names span := by
  have hmarks : (map.marks names span).map (Tree.mapElements f) =
      (map.marks names span).map id := by
    apply List.map_congr_left
    intro tree member
    apply Tree.mapElements_eq_self
    simp [elements_of_mem_marks member]
  rw [hmarks, List.map_id]

theorem nested_markAll (names : List String) (e : Element) :
    (map.markAll names e).nested = e.nested := by
  have hmarks : (map.marks names e.span).flatMap Tree.elements = [] := by
    rw [List.flatMap_eq_nil_iff]
    intro tree member
    exact elements_of_mem_marks member
  simp only [OpeningElement.nested, markAll, List.flatMap_append, hmarks, List.append_nil]

/-- Marks on top of marks are the marks of all names together. -/
theorem mapElements_markAll (before after : List String) (e : Element) :
    (map.markAll before e).mapElements (map.markAll after) =
      map.markAll (before ++ after) (e.mapParts (Tree.mapElements (map.markAll after))) := by
  rw [OpeningElement.mapElements_eq]
  simp only [markAll, OpeningElement.mapParts, List.map_append, map_mapElements_marks,
    marks_append, List.append_assoc]

theorem span_mapElements_markAll (names : List String) (e : Element) :
    (e.mapElements (map.markAll names)).span = e.span := by
  rw [OpeningElement.mapElements_eq]
  rfl

theorem form_mapElements_markAll (names : List String) (e : Element) :
    (e.mapElements (map.markAll names)).form = e.form := by
  rw [OpeningElement.mapElements_eq]
  rfl

theorem mapElements_markAll_of_dummy (names : List String) {e : Element}
    (h : e.span.isDummy = true) :
    e.mapElements (map.markAll names) =
      e.mapParts (Tree.mapElements (map.markAll names)) := by
  rw [OpeningElement.mapElements_eq, markAll, OpeningElement.span_mapParts,
    marks_of_dummy _ h, List.append_nil]
  rfl

/-- An element on some line is mapped inside, and has one mark for each name behind
its own attributes. -/
theorem mapElements_markAll_of_line (names : List String) {e : Element} {line : Nat}
    (hdummy : e.span.isDummy = false) (hline : map.lineAt? e.span.lo.toNat = some line) :
    e.mapElements (map.markAll names) =
      { e.mapParts (Tree.mapElements (map.markAll names)) with
        attributes := e.attributes.map (Tree.mapElements (map.markAll names)) ++
          names.map fun name => Marking.sourceAttribute name line } := by
  rw [OpeningElement.mapElements_eq, markAll, OpeningElement.span_mapParts,
    marks_of_line _ hdummy hline]
  rfl

end SourceMap

namespace Marker

theorem mark_eq_markAll (marker : Marker) :
    marker.mark = marker.map.markAll [marker.fileName] := by
  funext e
  cases hdummy : e.span.isDummy with
  | true => simp [mark, SourceMap.markAll, SourceMap.marks, hdummy]
  | false =>
      cases hline : marker.map.lineAt? e.span.lo.toNat <;>
        simp [mark, SourceMap.markAll, SourceMap.marks, OpeningElement.addAttribute, hdummy, hline]

theorem nested_mark (marker : Marker) (e : Element) : (marker.mark e).nested = e.nested := by
  rw [mark_eq_markAll]
  exact SourceMap.nested_markAll _ e

theorem mapElements_mark_of_dummy {marker : Marker} {e : Element} (h : e.span.isDummy = true) :
    e.mapElements marker.mark = e.mapParts (Tree.mapElements marker.mark) := by
  rw [mark_eq_markAll]
  exact SourceMap.mapElements_markAll_of_dummy _ h

section OnALine

variable {marker : Marker} {e : Element} {line : Nat} (hdummy : e.span.isDummy = false)
  (hline : marker.map.lineAt? e.span.lo.toNat = some line)

include hdummy hline

/-- An element on some line is mapped inside, and has one attribute more, the last. -/
theorem mapElements_mark_of_line :
    e.mapElements marker.mark =
      { e.mapParts (Tree.mapElements marker.mark) with
        attributes := (e.mapParts (Tree.mapElements marker.mark)).attributes ++
          [Marking.sourceAttribute marker.fileName line] } := by
  rw [mark_eq_markAll]
  exact SourceMap.mapElements_markAll_of_line _ hdummy hline

/-- The mark of an element is the last attribute of what became of it. -/
theorem getLast?_attributes_mapElements_mark :
    (e.mapElements marker.mark).attributes.getLast? =
      some (Marking.sourceAttribute marker.fileName line) := by
  rw [mapElements_mark_of_line hdummy hline]
  exact List.getLast?_concat

/-- What the last attribute gives is the name of the marker, and the line as far as
binary64 numbers can hold it. -/
theorem place?_getLast?_mapElements_mark :
    (e.mapElements marker.mark).attributes.getLast?.bind Tree.place? =
      some (marker.fileName, .int (Scaled.nearest line 1).toNat) := by
  rw [getLast?_attributes_mapElements_mark hdummy hline]
  exact Marking.place?_sourceAttribute marker.fileName line

end OnALine

theorem placed_of_run_ok {marker : Marker} {program marked : Program}
    (h : (marker.run program).result = .ok marked) :
    ∀ e ∈ program.elements, ¬ marker.Unplaced e := by
  rw [run_eq] at h
  cases hfind : program.elements.find? fun e => marker.Unplaced e with
  | some e => simp [hfind] at h
  | none => simpa using hfind

theorem run_of_placed {marker : Marker} {program : Program}
    (h : ∀ e ∈ program.elements, ¬ marker.Unplaced e) :
    marker.run program =
      ⟨.ok (program.mapElements marker.mark), marker.skipRecords program.elements ++
        [.added marker.fileName (Counts.ofElements program.elements)]⟩ := by
  have hfind : (program.elements.find? fun e => marker.Unplaced e) = none := by
    simpa using h
  rw [run_eq, hfind]

theorem eq_mapElements_of_run_ok {marker : Marker} {program marked : Program}
    (h : (marker.run program).result = .ok marked) :
    marked = program.mapElements marker.mark := by
  rw [run_of_placed (placed_of_run_ok h)] at h
  exact (Except.ok.inj h).symm

/-- A run neither adds nor drops nor moves an element. -/
theorem elements_of_run_ok {marker : Marker} {program marked : Program}
    (h : (marker.run program).result = .ok marked) :
    marked.elements = program.elements.map (OpeningElement.mapElements marker.mark) := by
  rw [eq_mapElements_of_run_ok h]
  exact Program.elements_mapElements marker.nested_mark program

theorem getElem?_elements_of_run_ok {marker : Marker} {program marked : Program}
    (h : (marker.run program).result = .ok marked) {i : Nat} {e : Element}
    (he : program.elements[i]? = some e) :
    marked.elements[i]? = some (e.mapElements marker.mark) := by
  rw [elements_of_run_ok h, List.getElem?_map, he]
  rfl

theorem line_of_placed {marker : Marker} {e : Element} (hdummy : e.span.isDummy = false)
    (h : ¬ marker.Unplaced e) :
    ∃ line, marker.map.lineAt? e.span.lo.toNat = some line := by
  rcases position_cases marker e with hposition | hplace | ⟨_, hline⟩
  · rw [hdummy] at hposition
    cases hposition
  · exact absurd hplace h
  · exact hline

/-- What a run leaves of an element with a position: behind the attributes it had stands
one more, and this one gives the name of the marker and the line of the position. -/
theorem exists_mark_of_run_ok {marker : Marker} {program marked : Program}
    (h : (marker.run program).result = .ok marked) {i : Nat} {e : Element}
    (he : program.elements[i]? = some e) (hposition : e.span.isDummy = false) :
    let inside := e.mapParts (Tree.mapElements marker.mark)
    ∃ (changed : Element) (added : Tree) (line : Nat),
      marker.map.lineAt? e.span.lo.toNat = some line ∧
      marked.elements[i]? = some changed ∧
      changed = { inside with attributes := inside.attributes ++ [added] } ∧
      changed.attributes.getLast?.bind Tree.place? =
        some (marker.fileName, .int (Scaled.nearest line 1).toNat) := by
  intro inside
  have hplaced := placed_of_run_ok h e (List.mem_of_getElem? he)
  obtain ⟨line, hline⟩ := line_of_placed hposition hplaced
  exact ⟨e.mapElements marker.mark, Marking.sourceAttribute marker.fileName line, line, hline,
    getElem?_elements_of_run_ok h he, mapElements_mark_of_line hposition hline,
    place?_getLast?_mapElements_mark hposition hline⟩

/-- A run that does not fail returns the map of the program, and the elements of the
result are those of the program, each in its place. Without a position, an element is
only mapped inside; with one, it is mapped inside and has one attribute more, the last,
which gives the name of the marker and the line of the position. -/
theorem run_ok_eq_mapElements {marker : Marker} {program marked : Program}
    (h : (marker.run program).result = .ok marked) :
    marked = program.mapElements marker.mark ∧
      marked.elements = program.elements.map (OpeningElement.mapElements marker.mark) ∧
      ∀ e ∈ program.elements,
        (e.span.isDummy = true →
          e.mapElements marker.mark = e.mapParts (Tree.mapElements marker.mark)) ∧
        (e.span.isDummy = false →
          ∃ line, marker.map.lineAt? e.span.lo.toNat = some line ∧
            e.mapElements marker.mark =
              { e.mapParts (Tree.mapElements marker.mark) with
                attributes := e.attributes.map (Tree.mapElements marker.mark) ++
                  [Marking.sourceAttribute marker.fileName line] } ∧
            (e.mapElements marker.mark).attributes.getLast?.bind Tree.place? =
              some (marker.fileName, .int (Scaled.nearest line 1).toNat)) := by
  refine ⟨eq_mapElements_of_run_ok h, elements_of_run_ok h, ?_⟩
  intro e member
  refine ⟨mapElements_mark_of_dummy, ?_⟩
  intro hdummy
  obtain ⟨line, hline⟩ := line_of_placed hdummy (placed_of_run_ok h e member)
  exact ⟨line, hline, mapElements_mark_of_line hdummy hline,
    place?_getLast?_mapElements_mark hdummy hline⟩

/-- A tag with another one among its attributes, at given spans. -/
def twoTags (outer inner : Span) : Program where
  form := .module
  span := outer
  body := [.element ⟨.null, outer, [.element ⟨.null, inner, [], true, .null⟩], false, .null⟩]
  interpreter := .null

theorem run_ok_eq_mapElements_twoTags :
    let marker : Marker := ⟨"a.tsx", .ofFiles [⟨.anonymous, "ab\ncd"⟩]⟩
    let program := twoTags ⟨1, 9⟩ ⟨4, 6⟩
    ∃ marked inner outer, (marker.run program).result = .ok marked ∧
      marked = program.mapElements marker.mark ∧
      marked.elements.map (·.attributes.length) = [1, 2] ∧
      marked.elements = [inner, outer] ∧
      inner.attributes.getLast?.bind Tree.place? = some ("a.tsx", .int 2) ∧
      outer.attributes.getLast?.bind Tree.place? = some ("a.tsx", .int 1) := by
  intro marker program
  have h : (marker.run program).result = .ok (program.mapElements marker.mark) := rfl
  obtain ⟨hmarked, helements, hmarks⟩ := run_ok_eq_mapElements h
  obtain ⟨two, htwo, _, hinner⟩ := (hmarks _ (.head _)).2 rfl
  obtain ⟨one, hone, _, houter⟩ := (hmarks _ (.tail _ (.head _))).2 rfl
  obtain rfl : 2 = two := Option.some.inj htwo
  obtain rfl : 1 = one := Option.some.inj hone
  refine ⟨_, _, _, h, hmarked, ?_, helements, hinner, houter⟩
  rw [helements]
  rfl

end Marker

end JsxProvenance
