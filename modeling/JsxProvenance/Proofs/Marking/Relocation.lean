import JsxProvenance.Proofs.Marking.Failure

/-!
Programs whose files are loaded together with others. Files in front move all positions
behind them by the same distance, their `SourceMap.width`, and files behind take only
positions that were free. So if the positions of a program are moved by that distance, a
run gives every element the line that it has without the other files: the run over the
moved program is the moved result of the run over the program, with the same log.

Only the distance counts, and it is summed up from bytes: a byte order mark at the front
of a file is not part of it, and the free position after each file is. An empty file
takes that one position and has no line. What the positions must not do is reach those
that are kept for generated code, since they would mean nothing there.

Main statement: `Marker.run_relocated`.
-/

namespace JsxProvenance

namespace SourceMap

/-- How many positions files take, the free one after each of them included. -/
def width : List SourceFile → Nat
  | [] => 0
  | file :: rest => file.bytes.length + 1 + width rest

theorem startOf_append (before rest : List SourceFile) (number : Nat) :
    startOf (before ++ rest) (before.length + number) = width before + startOf rest number := by
  induction before with
  | nil => simp [width]
  | cons file more ih =>
      have hnumber : (file :: more).length + number = more.length + number + 1 := by
        rw [List.length_cons]
        omega
      rw [hnumber, List.cons_append, startOf, ih, width]
      omega

theorem startOf_append_left {files : List SourceFile} (after : List SourceFile) {number : Nat}
    (h : number < files.length) : startOf (files ++ after) number = startOf files number := by
  induction files generalizing number with
  | nil => cases h
  | cons file rest ih =>
      cases number with
      | zero => rfl
      | succ number =>
          rw [List.cons_append, startOf, startOf, ih (Nat.lt_of_succ_lt_succ h)]

theorem startOf_le_startOf (files : List SourceFile) {number later : Nat} (h : number ≤ later) :
    startOf files number ≤ startOf files later := by
  induction files generalizing number later with
  | nil => exact Nat.le_refl 1
  | cons file rest ih =>
      cases number with
      | zero => exact one_le_startOf (file :: rest) later
      | succ number =>
          obtain ⟨before, rfl⟩ : ∃ before, later = before + 1 := ⟨later - 1, by omega⟩
          have hrest := ih (Nat.le_of_succ_le_succ h)
          rw [startOf, startOf]
          omega

section Among

variable {before files after : List SourceFile} {pos : Nat}

/-- A file keeps its place among the positions, moved by the width of the files before it. -/
theorem startOf_among (before after : List SourceFile) {number : Nat}
    (h : number < files.length) :
    startOf (before ++ files ++ after) (before.length + number) =
      width before + startOf files number := by
  rw [List.append_assoc, startOf_append, startOf_append_left after h]

/-- The line of a position does not depend on the files around the one that it is in. -/
theorem lineAt?_among (hfiles : files ≠ []) (hpos : 1 ≤ pos)
    (hafter : after ≠ [] →
      pos + width before <
        startOf (before ++ files ++ after) (before.length + files.length)) :
    (ofFiles (before ++ files ++ after)).lineAt? (pos + width before) =
      (ofFiles files).lineAt? pos := by
  cases hline : (ofFiles files).lineAt? pos with
  | none =>
      rcases (lineAt?_ofFiles_eq_none_iff files pos).mp hline with hzero | hnone
      · omega
      · exact absurd hnone hfiles
  | some line =>
      obtain ⟨number, file, hfile, hstart, hlater, rfl⟩ := lineAt?_ofFiles hline
      have hnumber : number < files.length := (List.getElem?_eq_some_iff.mp hfile).1
      have hmoved := startOf_among before after hnumber
      have hamong : (before ++ files ++ after)[before.length + number]? = some file := by
        rw [List.append_assoc, List.getElem?_append_right (Nat.le_add_right _ _),
          Nat.add_sub_cancel_left, List.getElem?_append_left hnumber, hfile]
      have hlast : ∀ later, before.length + number < later →
          later < (before ++ files ++ after).length →
          pos + width before < startOf (before ++ files ++ after) later := by
        intro later hlt hlength
        rw [List.length_append, List.length_append] at hlength
        by_cases hinside : later < before.length + files.length
        · obtain ⟨other, rfl⟩ : ∃ other, later = before.length + other :=
            ⟨later - before.length, by omega⟩
          have hother := hlater other (by omega) (by omega)
          rw [startOf_among before after (by omega)]
          omega
        · have hmore : after ≠ [] := by
            rintro rfl
            rw [List.length_nil] at hlength
            omega
          have hmonotone := startOf_le_startOf (before ++ files ++ after)
            (Nat.not_lt.mp hinside)
          have hfirst := hafter hmore
          omega
      have hfound := fileAt?_ofFiles_of_last hamong (by omega) hlast
      have hoffset : pos + width before =
          startOf (before ++ files ++ after) (before.length + number) +
            (pos - startOf files number) := by omega
      rw [lineAt?, hfound, Option.map_some, Option.some.injEq, hoffset,
        PlacedFile.lineAt_ofFile]

end Among

end SourceMap

namespace Span

/-- The span by some positions further on. A dummy span points nowhere, and stays. -/
def moved (distance : Nat) (span : Span) : Span :=
  if span.isDummy then span
  else ⟨span.lo + UInt32.ofNat distance, span.hi + UInt32.ofNat distance⟩

/-- The span can be moved with the files that it points into, from where they are alone to
where they are among others: its ends remain positions, and it starts before those kept for
generated code and before the first of the files behind. -/
structure Movable (before files after : List SourceFile) (span : Span) : Prop where
  one_le_lo : 1 ≤ span.lo.toNat
  lo_lt : span.lo.toNat + SourceMap.width before < reserved.toNat
  hi_lt : span.hi.toNat + SourceMap.width before < UInt32.size
  lo_lt_after : after ≠ [] →
    span.lo.toNat + SourceMap.width before <
      SourceMap.startOf (before ++ files ++ after) (before.length + files.length)

variable {before files after : List SourceFile} {span : Span}

theorem moved_of_dummy (distance : Nat) (h : span.isDummy = true) :
    span.moved distance = span := by
  rw [moved, if_pos h]

theorem Movable.toNat_lo_moved (h : span.Movable before files after)
    (hdummy : span.isDummy = false) :
    (span.moved (SourceMap.width before)).lo.toNat =
      span.lo.toNat + SourceMap.width before := by
  have hreserved : reserved.toNat < 2 ^ 32 := by decide
  have hlo := h.lo_lt
  rw [moved, hdummy, if_neg Bool.false_ne_true, UInt32.toNat_add, UInt32.toNat_ofNat',
    Nat.add_mod_mod, Nat.mod_eq_of_lt (by omega)]

/-- Moving makes no position dummy. -/
theorem Movable.isDummy_moved (h : span.Movable before files after)
    (hdummy : span.isDummy = false) :
    (span.moved (SourceMap.width before)).isDummy = false := by
  have hlo := h.toNat_lo_moved hdummy
  have hone := h.one_le_lo
  have hlt := h.lo_lt
  rw [← Bool.not_eq_true, isDummy_iff]
  rintro (⟨hzero, _⟩ | hreserved)
  · rw [hzero, UInt32.toNat_zero] at hlo
    omega
  · rw [UInt32.le_iff_toNat_le] at hreserved
    omega

theorem isDummy_moved (h : span.isDummy = true ∨ span.Movable before files after) :
    (span.moved (SourceMap.width before)).isDummy = span.isDummy := by
  cases hdummy : span.isDummy with
  | true => rw [moved_of_dummy _ hdummy, hdummy]
  | false =>
      rcases h with hstays | hmoves
      · rw [hdummy] at hstays
        cases hstays
      · exact hmoves.isDummy_moved hdummy

theorem Movable.one_le_moved (h : span.Movable before files after)
    (hdummy : span.isDummy = false) : 1 ≤ (span.moved (SourceMap.width before)).lo := by
  rw [UInt32.le_iff_toNat_le, h.toNat_lo_moved hdummy]
  exact h.one_le_lo.trans (Nat.le_add_right _ _)

end Span

namespace OpeningElement

/-- The element with its span by some positions further on. -/
def moved (distance : Nat) (e : Element) : Element :=
  { e with span := e.span.moved distance }

theorem nested_moved (distance : Nat) (e : Element) : (e.moved distance).nested = e.nested := rfl

theorem elements_moved (distance : Nat) (program : Program) :
    (program.mapElements (moved distance)).elements =
      program.elements.map (OpeningElement.mapElements (moved distance)) :=
  Program.elements_mapElements (nested_moved distance) program

theorem span_mapElements_moved (distance : Nat) (e : Element) :
    (e.mapElements (moved distance)).span = e.span.moved distance := by
  rw [mapElements_eq]
  rfl

theorem form_mapElements_moved (distance : Nat) (e : Element) :
    (e.mapElements (moved distance)).form = e.form := by
  rw [mapElements_eq]
  rfl

end OpeningElement

open OpeningElement (moved)

namespace SourceMap

variable {before files after : List SourceFile}

/-- A span that is moved with its files gets the same marks. -/
theorem marks_moved (hfiles : files ≠ []) (names : List String) {span : Span}
    (h : span.isDummy = true ∨ span.Movable before files after) :
    (ofFiles (before ++ files ++ after)).marks names (span.moved (width before)) =
      (ofFiles files).marks names span := by
  cases hdummy : span.isDummy with
  | true => rw [Span.moved_of_dummy _ hdummy, marks_of_dummy _ hdummy, marks_of_dummy _ hdummy]
  | false =>
      have hmoves := h.resolve_left (by rw [hdummy]; exact Bool.false_ne_true)
      have hline := lineAt?_among hfiles hmoves.one_le_lo hmoves.lo_lt_after
      rw [marks, marks, hmoves.isDummy_moved hdummy, hdummy, hmoves.toNat_lo_moved hdummy, hline]

/-- Elements may be moved first and marked then, or the other way round. -/
theorem mapElements_moved_markAll (hfiles : files ≠ []) (names : List String)
    {program : Program}
    (h : ∀ e ∈ program.elements, e.span.isDummy = true ∨ e.span.Movable before files after) :
    (program.mapElements (moved (width before))).mapElements
        ((ofFiles (before ++ files ++ after)).markAll names) =
      (program.mapElements ((ofFiles files).markAll names)).mapElements
        (moved (width before)) := by
  have hmoved := Program.mapElements_mapElements
    (f := moved (width before)) (g := (ofFiles (before ++ files ++ after)).markAll names)
    (h := fun e => (ofFiles (before ++ files ++ after)).markAll names (e.moved (width before)))
    (by
      intro e
      exact OpeningElement.mapElements_eq _ _) program
  have hmarked := Program.mapElements_mapElements
    (f := (ofFiles files).markAll names) (g := moved (width before))
    (h := fun e => ((ofFiles files).markAll names e).moved (width before))
    (by
      intro e
      rw [OpeningElement.mapElements_eq]
      simp only [markAll, OpeningElement.mapParts, List.map_append, map_mapElements_marks]) program
  rw [hmoved, hmarked]
  apply Program.mapElements_congr
  intro e member inside
  simp only [markAll, OpeningElement.moved, OpeningElement.span_mapParts,
    marks_moved hfiles names (h e member)]

end SourceMap

namespace Marker

/-- A run over a program whose files are loaded among others. If each element is without a
position, or has one that can be moved with its files, then the program may be run with its
own files alone and moved afterwards, or moved first and run with all files: both runs
succeed, with the same program and the same log. -/
theorem run_relocated (fileName : String) {before files after : List SourceFile}
    (hfiles : files ≠ []) {program : Program}
    (h : ∀ e ∈ program.elements, e.span.isDummy = true ∨ e.span.Movable before files after) :
    let distance := SourceMap.width before
    let alone := Marker.run ⟨fileName, .ofFiles files⟩ program
    let among := Marker.run ⟨fileName, .ofFiles (before ++ files ++ after)⟩
      (program.mapElements (moved distance))
    ∃ marked, alone.result = .ok marked ∧
      among.result = .ok (marked.mapElements (moved distance)) ∧
      among.records = alone.records := by
  intro distance alone among
  have hplaced : ∀ e ∈ program.elements, ¬ Unplaced ⟨fileName, .ofFiles files⟩ e := by
    intro e member
    rw [unplaced_ofFiles_iff]
    apply not_outside_of_position hfiles
    exact (h e member).imp id fun hmoves => UInt32.le_iff_toNat_le.mpr hmoves.one_le_lo
  have hsame : ∀ e ∈ program.elements,
      (e.mapElements (moved distance)).span.isDummy = e.span.isDummy ∧
        (e.mapElements (moved distance)).form = e.form := by
    intro e member
    rw [OpeningElement.span_mapElements_moved, OpeningElement.form_mapElements_moved]
    exact ⟨Span.isDummy_moved (h e member), rfl⟩
  have hmoved : ∀ e ∈ (program.mapElements (moved distance)).elements,
      ¬ Unplaced ⟨fileName, .ofFiles (before ++ files ++ after)⟩ e := by
    intro changed member
    rw [OpeningElement.elements_moved] at member
    obtain ⟨e, he, rfl⟩ := List.mem_map.mp member
    rw [unplaced_ofFiles_iff]
    apply not_outside_of_position (by simp [hfiles])
    rw [(hsame e he).1, OpeningElement.span_mapElements_moved]
    cases hdummy : e.span.isDummy with
    | true => exact Or.inl rfl
    | false =>
        have hmoves := (h e he).resolve_left (by rw [hdummy]; exact Bool.false_ne_true)
        exact Or.inr (hmoves.one_le_moved hdummy)
  have halone : alone = _ := run_of_placed hplaced
  have hamong : among = _ := run_of_placed hmoved
  refine ⟨_, congrArg Outcome.result halone, ?_, ?_⟩
  · rw [hamong, mark_eq_markAll, mark_eq_markAll,
      SourceMap.mapElements_moved_markAll hfiles [fileName] h]
  · rw [hamong, halone, OpeningElement.elements_moved, skipRecords_map hsame,
      Counts.ofElements_map hsame]
    rfl

theorem run_relocated_betweenFiles :
    let before : List SourceFile := [⟨.anonymous, "\uFEFFx\r\n"⟩, ⟨.anonymous, ""⟩]
    let files : List SourceFile := [⟨.path "a.tsx", "ab\ncd"⟩]
    let after : List SourceFile := [⟨.anonymous, "y"⟩]
    let program := twoTags ⟨1, 9⟩ ⟨4, 6⟩
    (program.mapElements (moved (SourceMap.width before))).elements.map (·.span) =
        [⟨9, 11⟩, ⟨6, 14⟩] ∧
      ∃ marked, (Marker.run ⟨"a.tsx", .ofFiles files⟩ program).result = .ok marked ∧
        (Marker.run ⟨"a.tsx", .ofFiles (before ++ files ++ after)⟩
          (program.mapElements (moved (SourceMap.width before)))).result =
            .ok (marked.mapElements (moved (SourceMap.width before))) := by
  intro before files after program
  have hmoves : ∀ e ∈ program.elements,
      e.span.isDummy = true ∨ e.span.Movable before files after := by
    intro e member
    have hspan : e.span ∈ [(⟨4, 6⟩ : Span), ⟨1, 9⟩] :=
      List.mem_map_of_mem (f := fun e : Element => e.span) member
    simp only [List.mem_cons, List.not_mem_nil, or_false] at hspan
    right
    rcases hspan with hinner | houter
    · rw [hinner]
      exact ⟨by decide, by decide, by decide, fun _ => by decide⟩
    · rw [houter]
      exact ⟨by decide, by decide, by decide, fun _ => by decide⟩
  obtain ⟨marked, halone, hamong, _⟩ := run_relocated "a.tsx" (by decide) hmoves
  exact ⟨by decide, marked, halone, hamong⟩

end Marker

end JsxProvenance
