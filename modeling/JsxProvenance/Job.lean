import JsxProvenance.Marking.Walk

/-!
Jobs: a program to be marked, as a host hands it over. The name to mark it with is
the one in the options, else the one that the host reports, else that of the file
the program's own span points into. Options that cannot be read do not stop a job:
they are recorded, and it goes on as if there were none.
-/

namespace JsxProvenance

structure Job where
  map : SourceMap
  /-- The text of the options, if the host has any. -/
  options : Option String
  /-- The name that the host reports, if it does. -/
  hostName : Option String
  program : Program
deriving Repr

namespace Job

/-- The name of a program whose file is not known. -/
def unknownName : String := "unknown"

/-- The options of a job, and the record of those that were ignored. -/
def readOptions (job : Job) : Options × List Record :=
  match job.options with
  | none => ({}, [])
  | some text =>
      match Options.read text with
      | .ok options => (options, [])
      | .error error => ({}, [.optionsIgnored error])

/-- The name of the file that the program's own span points into. -/
def spanName (job : Job) : Except NoFileFor String :=
  if job.program.span.isDummy then .ok unknownName
  else
    match job.map.fileAt? job.program.span.lo.toNat with
    | some file => .ok file.name.display
    | none => .error ⟨job.program.span.lo.toNat⟩

/-- The name to mark the program with. -/
def fileName (job : Job) (options : Options) : Except NoFileFor String :=
  match options.fileName, job.hostName with
  | some name, _ => .ok name
  | none, some name => .ok name
  | none, none => job.spanName

/-- Does a job. -/
def run (job : Job) : Outcome :=
  let (options, ignored) := job.readOptions
  match job.fileName options with
  | .error failure => ⟨.error failure, ignored⟩
  | .ok name =>
      let outcome := Marker.run ⟨name, job.map⟩ job.program
      { outcome with records := ignored ++ outcome.records }

end Job

end JsxProvenance
