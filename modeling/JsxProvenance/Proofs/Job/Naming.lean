import JsxProvenance.Job
import JsxProvenance.Proofs.Marking.Failure

/-!
The name that a job marks its program with, and what it does not depend on. The text of
the options takes part in a job only through the options that it is read as: a text that
cannot be read leaves one warning, in front of all other records, and is otherwise as
good as none. Of the options, the name that the host reports and the file that the
program's own span points into, the first that gives a name decides. Those behind it may
then be anything at all: the outcome stays that of a run under the name.

What files are called is no part of a run either. It looks up lines, and lines are found
from the texts of the files.

Main statements: `Job.run_rejected_options` and `Job.run_name_precedence`.
-/

namespace JsxProvenance

namespace Outcome

/-- The same outcome with other records in front of its own. -/
def prepend (records : List Record) (outcome : Outcome) : Outcome :=
  { outcome with records := records ++ outcome.records }

/-- The same outcome for a program with another span of its own. -/
def withSpan (span : Span) (outcome : Outcome) : Outcome :=
  { outcome with result := outcome.result.map fun program => { program with span } }

end Outcome

namespace Marker

/-- A run asks a source map for lines and for nothing else. -/
theorem run_of_lineAt? {map other : SourceMap} (h : ∀ pos, other.lineAt? pos = map.lineAt? pos)
    (fileName : String) (program : Program) :
    Marker.run ⟨fileName, other⟩ program = Marker.run ⟨fileName, map⟩ program := by
  have hfinish : finish ⟨fileName, other⟩ = finish ⟨fileName, map⟩ := by
    funext e progress
    simp only [finish, h]
  simp only [run, walkProgram, hfinish]

theorem run_withSpan (marker : Marker) (program : Program) (span : Span) :
    marker.run { program with span } = (marker.run program).withSpan span := by
  have helements : ({ program with span } : Program).elements = program.elements := rfl
  rw [run_eq, run_eq, helements]
  cases program.elements.find? fun e => marker.Unplaced e <;> rfl

/-- Neither the names of the files nor the span of the program change a run, except that
the span is part of the program that comes back. -/
theorem run_of_texts (fileName : String) {files others : List SourceFile}
    (h : others.map (·.text) = files.map (·.text)) (program : Program) (span : Span) :
    Marker.run ⟨fileName, .ofFiles others⟩ { program with span } =
      (Marker.run ⟨fileName, .ofFiles files⟩ program).withSpan span := by
  rw [run_withSpan, run_of_lineAt? (SourceMap.lineAt?_ofFiles_of_texts h)]

theorem level_of_mem_skipRecords {marker : Marker} {elements : List Element} {record : Record}
    (h : record ∈ marker.skipRecords elements) : record.level = .debug := by
  obtain ⟨e, _, rfl⟩ := List.mem_map.mp h
  rfl

/-- A run gives no warnings. -/
theorem level_of_mem_records_run {marker : Marker} {program : Program} {record : Record}
    (h : record ∈ (marker.run program).records) : record.level = .debug := by
  rw [run_eq] at h
  split at h
  · exact level_of_mem_skipRecords h
  · rcases List.mem_append.mp h with hskipped | hadded
    · exact level_of_mem_skipRecords hskipped
    · rw [List.mem_singleton.mp hadded]
      rfl

end Marker

/-- The options that a host asks for: the default, if it hands over no text. -/
def Options.ofText? : Option String → Except OptionsError Options
  | none => .ok {}
  | some text => read text

namespace Job

/-- The outcome of a job once its options are known. -/
def runWith (job : Job) (options : Options) : Outcome :=
  match job.fileName options with
  | .error failure => ⟨.error failure, []⟩
  | .ok name => Marker.run ⟨name, job.map⟩ job.program

section Options

variable (job : Job)

theorem readOptions_eq :
    job.readOptions =
      match Options.ofText? job.options with
      | .ok options => (options, [])
      | .error error => ({}, [.optionsIgnored error]) := by
  rw [readOptions]
  cases job.options <;> rfl

/-- The text of the options decides on the options and on the warning in front, and has
no other part in a job. -/
theorem run_eq_runWith :
    job.run = (job.runWith job.readOptions.1).prepend job.readOptions.2 := by
  cases hname : job.fileName job.readOptions.1 with
  | error failure => simp only [run, runWith, hname, Outcome.prepend, List.append_nil]
  | ok name => simp only [run, runWith, hname, Outcome.prepend]

variable {job}

theorem run_of_options {options : Options} (h : Options.ofText? job.options = .ok options) :
    job.run = job.runWith options := by
  rw [run_eq_runWith, readOptions_eq, h]
  rfl

theorem run_of_error {error : OptionsError}
    (h : Options.ofText? job.options = .error error) :
    job.run = (job.runWith {}).prepend [.optionsIgnored error] := by
  rw [run_eq_runWith, readOptions_eq, h]

theorem level_of_mem_records_runWith {options : Options} {record : Record}
    (h : record ∈ (job.runWith options).records) : record.level = .debug := by
  rw [runWith] at h
  split at h
  · cases h
  · exact Marker.level_of_mem_records_run h

end Options

/-- Options that cannot be read cost a job nothing: the outcome is that of the job without
options, and the one record that comes on top of the others stands in front of them and is
the only warning. Options that can be read count for what they are read as, so two texts
for the same options have the same outcome. -/
theorem run_rejected_options (map : SourceMap) (hostName : Option String) (program : Program) :
    let run (options : Option String) : Outcome := Job.run ⟨map, options, hostName, program⟩
    (∀ text error, Options.read text = .error error →
      (run (some text)).result = (run none).result ∧
      ∃ warning : Record,
        (run (some text)).records = warning :: (run none).records ∧
        warning.level.name = "WARN" ∧
        warning.message = "ignoring plugin config: " ++ error.message ∧
        ∀ record ∈ (run none).records, record.level.name ≠ "WARN") ∧
      ∀ (text other : Option String) (options : Options),
        Options.ofText? text = .ok options → Options.ofText? other = .ok options →
        run text = run other := by
  intro run
  have hnone : run none = _ := run_of_options rfl
  refine ⟨?_, ?_⟩
  · intro text error hread
    have hrun : run (some text) = (run none).prepend [.optionsIgnored error] := by
      rw [hnone]
      exact run_of_error hread
    rw [hrun]
    refine ⟨rfl, .optionsIgnored error, rfl, rfl, rfl, ?_⟩
    intro record member
    rw [hnone] at member
    rw [level_of_mem_records_runWith member]
    decide
  · intro text other options htext hother
    have hrun : run text = _ := run_of_options htext
    have hagain : run other = _ := run_of_options hother
    rw [hrun, hagain]
    rfl

theorem run_rejected_options_boolean :
    let run (options : Option String) : Outcome :=
      Job.run ⟨.ofFiles [⟨.anonymous, "ab"⟩], options, none, Marker.twoTags ⟨1, 3⟩ ⟨2, 3⟩⟩
    Options.read "true" = .error (.notAnObject .boolean) ∧
      (∃ marked, (run (some "true")).result = .ok marked) ∧
      (run (some "true")).result = (run none).result ∧
      run (some " ") = run none := by
  intro run
  obtain ⟨hrejected, hequal⟩ := run_rejected_options (.ofFiles [⟨.anonymous, "ab"⟩]) none
    (Marker.twoTags ⟨1, 3⟩ ⟨2, 3⟩)
  exact ⟨rfl, ⟨_, rfl⟩, (hrejected "true" _ rfl).1, hequal (some " ") none {} rfl rfl⟩

/-- The options give no name, and leave the warnings that stand beside them. -/
inductive Unnamed : Option String → List Record → Prop
  | absent : Unnamed none []
  | silent {text : String} (h : Options.read text = .ok {}) : Unnamed (some text) []
  | rejected {text : String} {error : OptionsError} (h : Options.read text = .error error) :
      Unnamed (some text) [.optionsIgnored error]

theorem named_or_unnamed (options : Option String) :
    (∃ name, Options.ofText? options = .ok { fileName := some name }) ∨
      ∃ warnings, Unnamed options warnings := by
  cases options with
  | none => exact Or.inr ⟨_, .absent⟩
  | some text =>
      cases hread : Options.read text with
      | error error => exact Or.inr ⟨_, .rejected hread⟩
      | ok options =>
          obtain ⟨fileName⟩ := options
          cases fileName with
          | none => exact Or.inr ⟨_, .silent hread⟩
          | some name => exact Or.inl ⟨name, hread⟩

section Names

variable {job : Job} {warnings : List Record}

theorem run_of_unnamed (h : Unnamed job.options warnings) :
    job.run = (job.runWith {}).prepend warnings := by
  obtain ⟨map, options, hostName, program⟩ := job
  cases h with
  | absent => exact run_of_options rfl
  | silent hread => exact run_of_options hread
  | rejected hread => exact run_of_error hread

theorem run_of_name {name : String}
    (h : Options.ofText? job.options = .ok { fileName := some name }) :
    job.run = Marker.run ⟨name, job.map⟩ job.program :=
  run_of_options h

theorem run_of_hostName (h : Unnamed job.options warnings) {name : String}
    (hhost : job.hostName = some name) :
    job.run = (Marker.run ⟨name, job.map⟩ job.program).prepend warnings := by
  have hname : job.fileName {} = .ok name := by
    rw [fileName, hhost]
  rw [run_of_unnamed h, runWith, hname]

theorem fileName_eq_spanName (hhost : job.hostName = none) : job.fileName {} = job.spanName := by
  rw [fileName, hhost]

variable (job)

theorem run_of_dummy (h : Unnamed job.options warnings) (hhost : job.hostName = none)
    (hdummy : job.program.span.isDummy = true) :
    job.run = (Marker.run ⟨"unknown", job.map⟩ job.program).prepend warnings := by
  rw [run_of_unnamed h, runWith, fileName_eq_spanName hhost, spanName, if_pos hdummy]
  rfl

theorem run_of_span (h : Unnamed job.options warnings) (hhost : job.hostName = none)
    (hdummy : job.program.span.isDummy = false) :
    job.run =
      match job.map.fileAt? job.program.span.lo.toNat with
      | none => ⟨.error ⟨job.program.span.lo.toNat⟩, warnings⟩
      | some file =>
          (Marker.run ⟨file.name.display, job.map⟩ job.program).prepend warnings := by
  rw [run_of_unnamed h, runWith, fileName_eq_spanName hhost, spanName, hdummy]
  cases job.map.fileAt? job.program.span.lo.toNat with
  | none => simp [Outcome.prepend]
  | some file => rfl

variable {files : List SourceFile}

theorem run_of_outside (h : Unnamed job.options warnings) (hhost : job.hostName = none)
    (hmap : job.map = .ofFiles files) (houtside : job.program.span.Outside files) :
    job.run = ⟨.error ⟨job.program.span.lo.toNat⟩, warnings⟩ := by
  obtain ⟨hdummy, hposition⟩ := houtside
  have hnone : job.map.fileAt? job.program.span.lo.toNat = none := by
    rw [hmap, SourceMap.fileAt?_ofFiles_eq_none_iff]
    exact hposition.imp (fun hzero => congrArg UInt32.toNat hzero) id
  rw [job.run_of_span h hhost hdummy, hnone]

theorem run_of_file (h : Unnamed job.options warnings) (hhost : job.hostName = none)
    (hmap : job.map = .ofFiles files) (hdummy : job.program.span.isDummy = false)
    (hinside : ¬ job.program.span.Outside files) :
    ∃ number file, files[number]? = some file ∧
      SourceMap.startOf files number ≤ job.program.span.lo.toNat ∧
      (∀ later, number < later → later < files.length →
        job.program.span.lo.toNat < SourceMap.startOf files later) ∧
      job.run = (Marker.run ⟨file.name.display, job.map⟩ job.program).prepend warnings := by
  have hrun := job.run_of_span h hhost hdummy
  cases hfile : job.map.fileAt? job.program.span.lo.toNat with
  | none =>
      rw [hmap, SourceMap.fileAt?_ofFiles_eq_none_iff] at hfile
      exact absurd ⟨hdummy, hfile.imp UInt32.toNat_inj.mp id⟩ hinside
  | some placed =>
      rw [hfile] at hrun
      rw [hmap] at hfile
      obtain ⟨number, file, hnumber, rfl, hstart, hlater⟩ :=
        SourceMap.fileAt?_ofFiles_eq_some hfile
      exact ⟨number, file, hnumber, hstart, hlater, hrun⟩

end Names

/-- Who names a program. A name in the options, an empty one included, goes before all
others, and a name that the host reports goes before the program's own span; the outcome
is then that of a run under the name, and what comes behind it has no influence. Only a
job with neither looks at the span: there is a fixed name for a dummy one, a position that
no file holds ends the job before the run, and otherwise the name is that of the last
file that starts at or before the span. -/
theorem run_name_precedence (files : List SourceFile) (options hostName : Option String)
    (program : Program) :
    let job : Job := ⟨.ofFiles files, options, hostName, program⟩
    let named (name : String) : Outcome := Marker.run ⟨name, .ofFiles files⟩ program
    let position := program.span.lo.toNat
    ((∃ name, Options.ofText? options = .ok { fileName := some name }) ∨
        ∃ warnings, Unnamed options warnings) ∧
      (∀ name, Options.ofText? options = .ok { fileName := some name } →
        job.run = named name ∧
        ∀ (others : List SourceFile) (otherHost : Option String) (span : Span),
          others.map (·.text) = files.map (·.text) →
          Job.run ⟨.ofFiles others, options, otherHost, { program with span }⟩ =
            (named name).withSpan span) ∧
      ∀ warnings, Unnamed options warnings →
        (∀ name, hostName = some name →
          job.run = (named name).prepend warnings ∧
          ∀ (others : List SourceFile) (span : Span),
            others.map (·.text) = files.map (·.text) →
            Job.run ⟨.ofFiles others, options, hostName, { program with span }⟩ =
              ((named name).withSpan span).prepend warnings) ∧
        (hostName = none →
          (program.span.isDummy = true → job.run = (named "unknown").prepend warnings) ∧
          (program.span.Outside files → job.run = ⟨.error ⟨position⟩, warnings⟩) ∧
          (program.span.isDummy = false → ¬ program.span.Outside files →
            ∃ number file, files[number]? = some file ∧
              SourceMap.startOf files number ≤ position ∧
              (∀ later, number < later → later < files.length →
                position < SourceMap.startOf files later) ∧
              job.run = (named file.name.display).prepend warnings)) := by
  intro job named position
  refine ⟨named_or_unnamed options, ?_, ?_⟩
  · intro name hname
    refine ⟨run_of_name hname, ?_⟩
    intro others otherHost span htexts
    have hrun : Job.run ⟨.ofFiles others, options, otherHost, { program with span }⟩ = _ :=
      run_of_name hname
    rw [hrun, Marker.run_of_texts name htexts]
  · intro warnings hunnamed
    refine ⟨?_, ?_⟩
    · intro name hhost
      refine ⟨run_of_hostName hunnamed hhost, ?_⟩
      intro others span htexts
      have hrun : Job.run ⟨.ofFiles others, options, hostName, { program with span }⟩ = _ :=
        run_of_hostName hunnamed hhost
      rw [hrun, Marker.run_of_texts name htexts]
    · intro hhost
      exact ⟨job.run_of_dummy hunnamed hhost, job.run_of_outside hunnamed hhost rfl,
        job.run_of_file hunnamed hhost rfl⟩

theorem run_name_precedence_twoTags :
    let files : List SourceFile := [⟨.path "a.tsx", "ab"⟩]
    let error : OptionsError := .notAnObject .boolean
    let program := Marker.twoTags ⟨0, 3⟩ .dummy
    let detached := Marker.twoTags .dummy ⟨2, 3⟩
    Job.run ⟨.ofFiles files, some "\x7b\"fileName\": \"\"\x7d", some "b.tsx", program⟩ =
        Marker.run ⟨"", .ofFiles files⟩ program ∧
      Job.run ⟨.ofFiles files, some "true", none, program⟩ =
        ⟨.error ⟨0⟩, [.optionsIgnored error]⟩ ∧
      Job.run ⟨.ofFiles files, some "true", none, detached⟩ =
        (Marker.run ⟨"unknown", .ofFiles files⟩ detached).prepend [.optionsIgnored error] := by
  intro files error program detached
  have hread : Options.read "\x7b\"fileName\": \"\"\x7d" = .ok { fileName := some "" } := rfl
  have hnamed := run_name_precedence files (some "\x7b\"fileName\": \"\"\x7d") (some "b.tsx")
    program
  have hlost := run_name_precedence files (some "true") none program
  have hdetached := run_name_precedence files (some "true") none detached
  refine ⟨(hnamed.2.1 "" hread).1, ?_, ?_⟩
  · exact ((hlost.2.2 _ (.rejected rfl)).2 rfl).2.1 ⟨rfl, Or.inl rfl⟩
  · exact ((hdetached.2.2 _ (.rejected rfl)).2 rfl).1 rfl

end Job

end JsxProvenance
