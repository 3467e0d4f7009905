import JsxProvenance.Source.Map
import Mathlib.Data.List.Basic

/-!
Looking up positions. The map finds a line by the list of line starts that it made
when the file was placed. Here the same line is counted from the bytes of the file
alone, by the breaks that end at or before the position: `PlacedFile.lineAt_ofFile`.
The file that a position belongs to is found among the placed files; here it is named
by its number in the list that was handed over, and its start is summed up from the
files before it: `SourceMap.fileAt?_ofFiles_eq_some`.

Main statements: `SourceMap.lineAt?_ofFiles` gives the line of every position that has
one, and `SourceMap.lineAt?_ofFiles_eq_none_iff` says which positions have none.
-/

namespace JsxProvenance

namespace Lines

theorem breakEndsAt_one (b : UInt8) (rest : List UInt8) :
    BreakEndsAt (b :: rest) 1 ↔ EndsBreak b rest := by
  cases rest <;> simp [BreakEndsAt, EndsBreak]

theorem breakEndsAt_cons (b : UInt8) (rest : List UInt8) (offset : Nat) :
    BreakEndsAt (b :: rest) (offset + 2) ↔ BreakEndsAt rest (offset + 1) := by
  simp [BreakEndsAt]

/-- The scan finds the breaks where the bytes say that they are. -/
theorem breakEnds_eq (pos : Nat) (bytes : List UInt8) :
    breakEnds pos bytes =
      ((List.range bytes.length).filter fun i => BreakEndsAt bytes (i + 1)).map
        fun i => pos + i + 1 := by
  induction bytes generalizing pos with
  | nil => rfl
  | cons b rest ih =>
      have hrest : ((List.range rest.length).map Nat.succ).filter
            (fun i => BreakEndsAt (b :: rest) (i + 1)) =
          ((List.range rest.length).filter fun i => BreakEndsAt rest (i + 1)).map Nat.succ := by
        rw [List.filter_map]
        apply congrArg (List.map Nat.succ)
        apply List.filter_congr
        intro i _
        simp only [Function.comp_apply, Nat.succ_eq_add_one, breakEndsAt_cons]
      rw [breakEnds, ih, List.length_cons, List.range_succ_eq_map, List.filter_cons, hrest]
      simp only [Nat.zero_add, breakEndsAt_one, decide_eq_true_eq]
      by_cases hbreak : EndsBreak b rest
      · rw [if_pos hbreak, if_pos hbreak, List.map_cons, List.map_map]
        congr 1
        apply List.map_congr_left
        intro i _
        simp only [Function.comp_apply]
        omega
      · rw [if_neg hbreak, if_neg hbreak, List.map_map]
        apply List.map_congr_left
        intro i _
        simp only [Function.comp_apply]
        omega

/-- Counting from one up to the length, or from zero below it, is the same for what
holds neither at zero nor at the length. -/
private theorem countP_range_shift (n : Nat) (p : Nat → Bool) (hzero : p 0 = false)
    (hlast : p n = false) :
    (List.range n).countP (fun i => p (i + 1)) = (List.range n).countP p := by
  have hfront : (List.range (n + 1)).countP p = (List.range n).countP fun i => p (i + 1) := by
    rw [List.range_succ_eq_map, List.countP_cons, List.countP_map, hzero]
    rfl
  have hback : (List.range (n + 1)).countP p = (List.range n).countP p := by
    rw [List.range_succ, List.countP_append, List.countP_singleton, hlast]
    rfl
  rw [← hfront, hback]

/-- The line of an offset, by line starts, is the one counted by breaks. -/
theorem countP_starts (start : Nat) (bytes : List UInt8) (offset : Nat) :
    (starts start bytes).countP (· ≤ start + offset) = lineOf bytes offset := by
  by_cases hempty : bytes = []
  · subst hempty
    simp [starts, breakEnds, lineOf]
  · have hlength : 0 < bytes.length := List.length_pos_iff.mpr hempty
    have hbreaks : (breakEnds start bytes).countP
          (fun p => decide (p ≤ start + offset) && decide (p < start + bytes.length)) =
        (List.range bytes.length).countP fun ending =>
          1 ≤ ending ∧ ending ≤ offset ∧ BreakEndsAt bytes ending := by
      rw [breakEnds_eq, List.countP_map, List.countP_filter]
      -- the scan goes by the byte before a break's end, the count by the end itself
      have hshift := countP_range_shift bytes.length
        (fun ending => decide (1 ≤ ending ∧ ending ≤ offset ∧ ending < bytes.length ∧
          BreakEndsAt bytes ending)) (by simp) (by simp)
      refine Eq.trans ?_ (hshift.trans ?_)
      · apply List.countP_congr
        intro i _
        simp only [Function.comp_apply, Bool.and_eq_true, decide_eq_true_eq]
        constructor
        · rintro ⟨⟨hoffset, hstop⟩, hbreak⟩
          exact ⟨by omega, by omega, by omega, hbreak⟩
        · rintro ⟨_, hoffset, hstop, hbreak⟩
          exact ⟨⟨by omega, by omega⟩, hbreak⟩
      · apply List.countP_congr
        intro ending member
        have hending : ending < bytes.length := List.mem_range.mp member
        simp only [decide_eq_true_eq, hending, true_and]
    have hfirst : (decide (start ≤ start + offset) &&
        decide (start < start + bytes.length)) = true := by
      simp only [Bool.and_eq_true, decide_eq_true_eq]
      omega
    simp only [starts, lineOf, if_neg hempty]
    rw [List.countP_filter, List.countP_cons, hbreaks, hfirst]
    simp only [if_true]
    omega

theorem lineOf_of_lt (bytes : List UInt8) {offset : Nat} (h : offset < bytes.length) :
    lineOf bytes offset =
      1 + (List.range (offset + 1)).countP fun ending =>
        1 ≤ ending ∧ BreakEndsAt bytes ending := by
  obtain ⟨more, hmore⟩ : ∃ more, bytes.length = offset + 1 + more :=
    ⟨bytes.length - (offset + 1), by omega⟩
  have hempty : bytes ≠ [] := by
    rintro rfl
    simp at h
  have hbefore : (List.range (offset + 1)).countP
        (fun ending => 1 ≤ ending ∧ ending ≤ offset ∧ BreakEndsAt bytes ending) =
      (List.range (offset + 1)).countP fun ending =>
        1 ≤ ending ∧ BreakEndsAt bytes ending := by
    apply List.countP_congr
    intro ending member
    have hending : ending ≤ offset := by
      have := List.mem_range.mp member
      omega
    simp only [hending, true_and]
  have hafter : ((List.range more).map (offset + 1 + ·)).countP
      (fun ending => 1 ≤ ending ∧ ending ≤ offset ∧ BreakEndsAt bytes ending) = 0 := by
    rw [List.countP_eq_zero]
    intro ending member
    obtain ⟨i, _, rfl⟩ := List.mem_map.mp member
    simp only [decide_eq_true_eq]
    omega
  rw [lineOf, if_neg hempty, hmore, List.range_add, List.countP_append, hbefore, hafter]
  omega

theorem lineOf_of_le (start : Nat) {bytes : List UInt8} {offset : Nat}
    (h : bytes.length ≤ offset) : lineOf bytes offset = (starts start bytes).length := by
  rw [← countP_starts start, List.countP_eq_length]
  intro pos member
  have hstop : pos < start + bytes.length := by
    simpa using (List.mem_filter.mp member).2
  simp only [decide_eq_true_eq]
  omega

private theorem countP_range_le (n bound : Nat) (p : Nat → Bool)
    (hp : ∀ i, p i = true → 1 ≤ i ∧ i ≤ bound) :
    (List.range n).countP p ≤ min (n - 1) bound := by
  induction n with
  | zero => simp
  | succ n ih =>
      rw [List.range_succ, List.countP_append, List.countP_singleton]
      by_cases hn : p n = true
      · have hbound := hp n hn
        rw [if_pos hn]
        omega
      · rw [if_neg hn]
        omega

/-- No more breaks end at or before an offset than there are bytes before it. -/
theorem lineOf_le (bytes : List UInt8) (offset : Nat) : lineOf bytes offset ≤ offset + 1 := by
  by_cases hempty : bytes = []
  · rw [lineOf, if_pos hempty]
    omega
  · have hbreaks := countP_range_le bytes.length offset
      (fun ending => decide (1 ≤ ending ∧ ending ≤ offset ∧ BreakEndsAt bytes ending))
      (by
        intro ending h
        simp only [decide_eq_true_eq] at h
        exact ⟨h.1, h.2.1⟩)
    rw [lineOf, if_neg hempty]
    omega

end Lines

theorem PlacedFile.lineAt_ofFile (file : SourceFile) (start offset : Nat) :
    (PlacedFile.ofFile start file).lineAt (start + offset) = Lines.lineOf file.bytes offset :=
  Lines.countP_starts start file.bytes offset

namespace SourceMap

/-- The files are placed where the lengths of those before them put them. -/
theorem getElem?_layout (before : Nat) (files : List SourceFile) (number : Nat) :
    (layout (before + 1) files)[number]? =
      files[number]?.map (PlacedFile.ofFile (before + startOf files number)) := by
  induction files generalizing before number with
  | nil => simp [layout]
  | cons file rest ih =>
      cases number with
      | zero => simp [layout, startOf]
      | succ number =>
          have hstart : before + 1 + file.bytes.length + 1 =
              (before + file.bytes.length + 1) + 1 := by omega
          have hsum : before + startOf (file :: rest) (number + 1) =
              before + file.bytes.length + 1 + startOf rest number := by
            rw [startOf]
            omega
          rw [layout, List.getElem?_cons_succ, List.getElem?_cons_succ, hstart, ih, hsum]

theorem getElem?_ofFiles (files : List SourceFile) (number : Nat) :
    (ofFiles files).files[number]? =
      files[number]?.map (PlacedFile.ofFile (startOf files number)) := by
  have h := getElem?_layout 0 files number
  simpa [ofFiles] using h

theorem one_le_startOf (files : List SourceFile) (number : Nat) : 1 ≤ startOf files number := by
  induction files generalizing number with
  | nil => simp [startOf]
  | cons file rest ih =>
      cases number with
      | zero => simp [startOf]
      | succ number =>
          have hrest := ih number
          rw [startOf]
          omega

/-- The last item of a list with some property, by its place. -/
private theorem getLast?_filter_eq_some {α : Type} {items : List α} {p : α → Bool} {x : α}
    (h : (items.filter p).getLast? = some x) :
    ∃ number : Nat, items[number]? = some x ∧ p x = true ∧
      ∀ (later : Nat) (y : α), number < later → items[later]? = some y → p y = false := by
  induction items with
  | nil => simp at h
  | cons first rest ih =>
      cases hrest : (rest.filter p).getLast? with
      | some last =>
          have hlast : last = x := by
            rw [List.filter_cons] at h
            split at h
            · rw [List.getLast?_cons, hrest] at h
              exact Option.some.inj h
            · exact Option.some.inj (hrest.symm.trans h)
          subst hlast
          obtain ⟨number, hnumber, hp, hlater⟩ := ih hrest
          refine ⟨number + 1, hnumber, hp, ?_⟩
          intro later y hlt hy
          obtain ⟨before, rfl⟩ : ∃ before, later = before + 1 := ⟨later - 1, by omega⟩
          exact hlater before y (by omega) hy
      | none =>
          have hnone : rest.filter p = [] := List.getLast?_eq_none_iff.mp hrest
          have hfirst : p first = true ∧ first = x := by
            rw [List.filter_cons, hnone] at h
            split at h
            · next hp => exact ⟨hp, Option.some.inj h⟩
            · simp at h
          obtain ⟨hp, rfl⟩ := hfirst
          refine ⟨0, rfl, hp, ?_⟩
          intro later y hlt hy
          obtain ⟨before, rfl⟩ : ∃ before, later = before + 1 := ⟨later - 1, by omega⟩
          have hmember : y ∈ rest := List.mem_of_getElem? hy
          simpa using List.filter_eq_nil_iff.mp hnone y hmember

/-- The file of a position is the last one that starts at or before it. -/
theorem fileAt?_ofFiles_eq_some {files : List SourceFile} {pos : Nat} {placed : PlacedFile}
    (h : (ofFiles files).fileAt? pos = some placed) :
    ∃ number file, files[number]? = some file ∧
      placed = PlacedFile.ofFile (startOf files number) file ∧
      startOf files number ≤ pos ∧
      ∀ later, number < later → later < files.length → pos < startOf files later := by
  obtain ⟨number, hplaced, hstart, hlater⟩ := getLast?_filter_eq_some h
  rw [getElem?_ofFiles, Option.map_eq_some_iff] at hplaced
  obtain ⟨file, hfile, rfl⟩ := hplaced
  refine ⟨number, file, hfile, rfl, of_decide_eq_true hstart, ?_⟩
  intro later hlt hlength
  have hnext : (ofFiles files).files[later]? =
      some (PlacedFile.ofFile (startOf files later) files[later]) := by
    rw [getElem?_ofFiles, List.getElem?_eq_getElem hlength]
    rfl
  have hbeyond : ¬ startOf files later ≤ pos :=
    of_decide_eq_false (hlater later _ hlt hnext)
  omega

/-- Only position zero belongs to no file, unless there are no files at all. -/
theorem fileAt?_ofFiles_eq_none_iff (files : List SourceFile) (pos : Nat) :
    (ofFiles files).fileAt? pos = none ↔ pos = 0 ∨ files = [] := by
  rw [fileAt?, List.getLast?_eq_none_iff, List.filter_eq_nil_iff]
  constructor
  · intro h
    cases files with
    | nil => exact Or.inr rfl
    | cons file rest =>
        have hfirst : ¬ 1 ≤ pos := fun hpos =>
          h (PlacedFile.ofFile 1 file) (by simp [ofFiles, layout]) (decide_eq_true hpos)
        left
        omega
  · rintro (rfl | rfl) placed member
    · obtain ⟨number, hnumber⟩ := List.getElem?_of_mem member
      rw [getElem?_ofFiles, Option.map_eq_some_iff] at hnumber
      obtain ⟨file, _, rfl⟩ := hnumber
      have hstart := one_le_startOf files number
      intro h
      have hzero : startOf files number ≤ 0 := of_decide_eq_true h
      omega
    · simp [ofFiles, layout] at member

/-- No two files are both the last that starts at or before a position. -/
theorem fileAt?_ofFiles_of_last {files : List SourceFile} {pos number : Nat} {file : SourceFile}
    (hfile : files[number]? = some file) (hstart : startOf files number ≤ pos)
    (hlater : ∀ later, number < later → later < files.length → pos < startOf files later) :
    (ofFiles files).fileAt? pos = some (PlacedFile.ofFile (startOf files number) file) := by
  have hlength : number < files.length := (List.getElem?_eq_some_iff.mp hfile).1
  cases hplaced : (ofFiles files).fileAt? pos with
  | none =>
      have hone := one_le_startOf files number
      rcases (fileAt?_ofFiles_eq_none_iff files pos).mp hplaced with hzero | hnone
      · omega
      · simp [hnone] at hlength
  | some placed =>
      obtain ⟨other, found, hfound, rfl, hotherStart, hotherLater⟩ :=
        fileAt?_ofFiles_eq_some hplaced
      have hotherLength : other < files.length := (List.getElem?_eq_some_iff.mp hfound).1
      rcases Nat.lt_trichotomy number other with hlt | rfl | hlt
      · have := hlater other hlt hotherLength
        omega
      · rw [Option.some.inj (hfound.symm.trans hfile)]
      · have := hotherLater number hlt hlength
        omega

theorem lineAt?_ofFiles_eq_none_iff (files : List SourceFile) (pos : Nat) :
    (ofFiles files).lineAt? pos = none ↔ pos = 0 ∨ files = [] := by
  rw [lineAt?, Option.map_eq_none_iff, fileAt?_ofFiles_eq_none_iff]

/-- The line of a position is the line of its offset in the last file that starts at
or before it. -/
theorem lineAt?_ofFiles {files : List SourceFile} {pos line : Nat}
    (h : (ofFiles files).lineAt? pos = some line) :
    ∃ number file, files[number]? = some file ∧ startOf files number ≤ pos ∧
      (∀ later, number < later → later < files.length → pos < startOf files later) ∧
      line = Lines.lineOf file.bytes (pos - startOf files number) := by
  rw [lineAt?, Option.map_eq_some_iff] at h
  obtain ⟨placed, hplaced, hline⟩ := h
  obtain ⟨number, file, hfile, rfl, hstart, hlater⟩ := fileAt?_ofFiles_eq_some hplaced
  refine ⟨number, file, hfile, hstart, hlater, ?_⟩
  have hoffset : startOf files number + (pos - startOf files number) = pos := by omega
  rw [← hline, ← PlacedFile.lineAt_ofFile file (startOf files number), hoffset]

private theorem layout_of_texts {files others : List SourceFile}
    (h : others.map (·.text) = files.map (·.text)) (start : Nat) :
    (layout start others).map (fun placed => (placed.start, placed.lineStarts)) =
      (layout start files).map fun placed => (placed.start, placed.lineStarts) := by
  induction files generalizing others start with
  | nil =>
      rw [List.map_nil, List.map_eq_nil_iff] at h
      rw [h]
  | cons file rest ih =>
      cases others with
      | nil => cases h
      | cons other more =>
          simp only [List.map_cons, List.cons.injEq] at h
          have hbytes : other.bytes = file.bytes := by
            rw [SourceFile.bytes, SourceFile.bytes, h.1]
          simp only [layout, List.map_cons, PlacedFile.ofFile, hbytes, ih h.2]

/-- Lines are found from the starts of the files and of their lines alone. -/
theorem lineAt?_eq (map : SourceMap) (pos : Nat) :
    map.lineAt? pos =
      ((map.files.map fun placed => (placed.start, placed.lineStarts)).filter
        (·.1 ≤ pos)).getLast?.map fun lines => lines.2.countP (· ≤ pos) := by
  rw [List.filter_map, List.getLast?_map, Option.map_map]
  rfl

/-- What files are called does not matter to the lines of positions in them. -/
theorem lineAt?_ofFiles_of_texts {files others : List SourceFile}
    (h : others.map (·.text) = files.map (·.text)) (pos : Nat) :
    (ofFiles others).lineAt? pos = (ofFiles files).lineAt? pos := by
  simp only [lineAt?_eq, ofFiles, layout_of_texts h]

/-- A line number is never larger than the position that was looked up. -/
theorem line_le_of_lineAt?_ofFiles {files : List SourceFile} {pos line : Nat}
    (h : (ofFiles files).lineAt? pos = some line) : line ≤ pos := by
  obtain ⟨number, file, _, hstart, _, rfl⟩ := lineAt?_ofFiles h
  have hone := one_le_startOf files number
  have hline := Lines.lineOf_le file.bytes (pos - startOf files number)
  omega

end SourceMap

end JsxProvenance
