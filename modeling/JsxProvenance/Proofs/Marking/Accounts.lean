import JsxProvenance.Proofs.Marking.Refinement
import JsxProvenance.Proofs.Marking.Session

/-!
Three accounts of one run. A walk counts the elements as it finishes them, it keeps a log,
and it changes the tree; nothing in it compares these with one another. They agree all the
same: the counts are those of the elements of the program, the attributes of the tree have
become as many more as elements were counted as marked, and the log has one record for each
element that was counted as skipped and a last one that gives the counts.

Main statement: `Marker.run_ok_accounts`.
-/

namespace JsxProvenance

namespace OpeningElement

theorem form_beq_opening (e : Element) : (e.form == .opening) = !e.selfClosing := by
  rw [form]
  cases e.selfClosing <;> rfl

theorem form_beq_selfClosing (e : Element) : (e.form == .selfClosing) = e.selfClosing := by
  rw [form]
  cases e.selfClosing <;> rfl

theorem name_form (e : Element) :
    e.form.name = if e.selfClosing then "SelfClosing" else "Opening" := by
  rw [form]
  cases e.selfClosing <;> rfl

end OpeningElement

namespace Counts

theorem marked_ofElements_cons (e : Element) (rest : List Element) :
    (ofElements (e :: rest)).marked =
      (ofElements rest).marked + if e.span.isDummy then 0 else 1 := by
  have hwhole := total_ofElements (e :: rest)
  have hrest := total_ofElements rest
  have hskipped : (ofElements (e :: rest)).skipped =
      (ofElements rest).skipped + if e.span.isDummy then 1 else 0 := by
    simp only [ofElements, List.countP_cons]
  rw [List.length_cons] at hwhole
  split at hskipped
  · rename_i hdummy
    rw [if_pos hdummy]
    omega
  · rename_i hdummy
    rw [if_neg hdummy]
    omega

end Counts

namespace Marker

variable {marker : Marker}

theorem counts_walkProgram {program : Program}
    (h : ∀ e ∈ program.elements, ¬ marker.Unplaced e) :
    ((marker.walkProgram program).run (.start {})).2.counts =
      Counts.ofElements program.elements := by
  rw [walkProgram_start, progress, finished_eq_self h, Counts.zero_add]

/-- A run that does not fail gives an element with a position one attribute more, and
no other element. -/
theorem length_attributes_mapElements_mark {e : Element} (h : ¬ marker.Unplaced e) :
    (e.mapElements marker.mark).attributes.length =
      e.attributes.length + if e.span.isDummy then 0 else 1 := by
  rcases position_cases marker e with hdummy | hunplaced | ⟨hdummy, line, hline⟩
  · rw [mapElements_mark_of_dummy hdummy, if_pos hdummy]
    exact List.length_map _
  · exact absurd hunplaced h
  · rw [mapElements_mark_of_line hdummy hline, hdummy]
    simp [OpeningElement.mapParts]

theorem length_attributes_map_mark {elements : List Element}
    (h : ∀ e ∈ elements, ¬ marker.Unplaced e) :
    ((elements.map (OpeningElement.mapElements marker.mark)).flatMap (·.attributes)).length =
      (elements.flatMap (·.attributes)).length + (Counts.ofElements elements).marked := by
  induction elements with
  | nil => rfl
  | cons e rest ih =>
      have hfirst := length_attributes_mapElements_mark (h e List.mem_cons_self)
      have hrest := ih fun other member => h other (List.mem_cons_of_mem e member)
      rw [List.map_cons, List.flatMap_cons, List.flatMap_cons, List.length_append,
        List.length_append, hfirst, hrest, Counts.marked_ofElements_cons]
      omega

/-- The log of a run as it is written. -/
theorem texts_of_records (fileName : String) (skipped : List Element) (counts : Counts) :
    (skipped.map (fun e : Element => Record.noPosition fileName e.form) ++
        [Record.added fileName counts]).map
          (fun record : Record => (record.level.name, record.message)) =
      skipped.map (fun e : Element => ("DEBUG", fileName ++ ": no position for " ++
        (if e.selfClosing then "SelfClosing" else "Opening") ++ " element, left as is")) ++
      [("DEBUG", fileName ++ ": added " ++ "__source" ++ " to " ++
        toString (counts.opening + counts.selfClosing) ++ " element(s) (" ++
        toString counts.opening ++ " opening, " ++ toString counts.selfClosing ++
        " self-closing, " ++ toString counts.skipped ++ " skipped)")] := by
  simp only [← OpeningElement.name_form, List.map_append, List.map_map]
  rfl

/-- The counts, the log and the tree of a run that does not fail say the same of it. -/
theorem run_ok_accounts {program marked : Program}
    (h : (marker.run program).result = .ok marked) :
    let counts := ((marker.walkProgram program).run (.start {})).2.counts
    let skipped := program.elements.filter (·.span.isDummy)
    let records := (marker.run program).records
    counts.opening = program.elements.countP (fun e => !e.span.isDummy && !e.selfClosing) ∧
      counts.selfClosing = program.elements.countP (fun e => !e.span.isDummy && e.selfClosing) ∧
      counts.skipped = skipped.length ∧
      counts.opening + counts.selfClosing + counts.skipped = program.elements.length ∧
      (marked.elements.flatMap (·.attributes)).length =
        (program.elements.flatMap (·.attributes)).length + counts.marked ∧
      records = skipped.map (fun e => .noPosition marker.fileName e.form) ++
        [.added marker.fileName counts] ∧
      records.map (fun record => (record.level.name, record.message)) =
        skipped.map (fun e => ("DEBUG", marker.fileName ++ ": no position for " ++
          (if e.selfClosing then "SelfClosing" else "Opening") ++ " element, left as is")) ++
        [("DEBUG", marker.fileName ++ ": added " ++ "__source" ++ " to " ++
          toString (counts.opening + counts.selfClosing) ++ " element(s) (" ++
          toString counts.opening ++ " opening, " ++ toString counts.selfClosing ++
          " self-closing, " ++ toString counts.skipped ++ " skipped)")] := by
  intro counts skipped records
  have hplaced := placed_of_run_ok h
  have hcounts : counts = Counts.ofElements program.elements := counts_walkProgram hplaced
  have hrecords : records = skipped.map (fun e => .noPosition marker.fileName e.form) ++
      [.added marker.fileName counts] := by
    rw [hcounts]
    exact congrArg Outcome.records (run_of_placed hplaced)
  refine ⟨?_, ?_, ?_, ?_, ?_, hrecords, ?_⟩
  · simp only [hcounts, Counts.ofElements, OpeningElement.form_beq_opening]
  · simp only [hcounts, Counts.ofElements, OpeningElement.form_beq_selfClosing]
  · rw [hcounts]
    exact List.countP_eq_length_filter
  · rw [hcounts]
    exact Counts.total_ofElements program.elements
  · rw [hcounts, elements_of_run_ok h]
    exact length_attributes_map_mark hplaced
  · rw [hrecords]
    exact texts_of_records marker.fileName skipped counts

theorem run_ok_accounts_twoTags :
    let marker : Marker := ⟨"a.tsx", .ofFiles [⟨.anonymous, "ab"⟩]⟩
    let program := twoTags ⟨1, 3⟩ .dummy
    ∃ marked, (marker.run program).result = .ok marked ∧
      (marker.run program).records =
        [.noPosition "a.tsx" .selfClosing, .added "a.tsx" ⟨1, 0, 1⟩] ∧
      (marked.elements.flatMap (·.attributes)).length = 2 := by
  intro marker program
  have h : (marker.run program).result = .ok (program.mapElements marker.mark) := rfl
  obtain ⟨_, _, _, _, hgrowth, hrecords, _⟩ := run_ok_accounts h
  exact ⟨_, h, hrecords, hgrowth⟩

end Marker

end JsxProvenance
