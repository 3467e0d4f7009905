import JsxProvenance.Marking.Attribute
import JsxProvenance.Source.Map
import JsxProvenance.Tree.Traversal

/-!
The walk that marks a tree. It finishes each element after what is nested in it,
looks up the line of its position, and puts the attribute behind those it has. A
position that belongs to no file ends the work: the element and all that would
have been finished after it stay as they are, and what was done before is kept.

A run walks over a whole program and records how many elements it marked, or gives up
at the first position that belongs to no file.
-/

namespace JsxProvenance

/-- What a walk marks elements with. -/
structure Marker where
  fileName : String
  map : SourceMap
deriving DecidableEq, Repr

/-- How far a walk has come. Once it has failed, it does nothing more. -/
structure Progress where
  counts : Counts := {}
  records : List Record := []
  failure : Option NoFileFor := none
deriving Repr

namespace Progress

/-- The beginning of a walk, with the counts of the walks before it. -/
def start (counts : Counts) : Progress :=
  { counts }

def log (progress : Progress) (record : Record) : Progress :=
  { progress with records := progress.records ++ [record] }

end Progress

namespace Marker

/-- What becomes of an element once everything nested in it is finished. -/
def finish (marker : Marker) (e : Element) : StateM Progress Element := fun progress =>
  if progress.failure.isSome then (e, progress)
  else if e.span.isDummy then
    (e, { progress.log (.noPosition marker.fileName e.form) with
      counts := progress.counts.skip })
  else
    match marker.map.lineAt? e.span.lo.toNat with
    | none => (e, { progress with failure := some ⟨e.span.lo.toNat⟩ })
    | some line =>
        (e.addAttribute (Marking.sourceAttribute marker.fileName line),
          { progress with counts := progress.counts.add e.form })

/-- Walks over a whole program. -/
def walkProgram (marker : Marker) (program : Program) : StateM Progress Program :=
  program.traverse marker.finish

/-- Walks over one element and what is nested in it. -/
def walkElement (marker : Marker) (e : Element) : StateM Progress Element :=
  e.traverse marker.finish

end Marker

/-- A marked program, or why there is none, with the log of the work. -/
structure Outcome where
  result : Except NoFileFor Program
  records : List Record
deriving Repr

/-- Marks a program with a name. -/
def Marker.run (marker : Marker) (program : Program) : Outcome :=
  let (marked, progress) := (marker.walkProgram program).run (.start {})
  match progress.failure with
  | some failure => ⟨.error failure, progress.records⟩
  | none => ⟨.ok marked, progress.records ++ [.added marker.fileName progress.counts]⟩

/-- Marks a program once for each name, each time what the run before it left. A
run that fails is the last. -/
def SourceMap.runs (map : SourceMap) : List String → Program → List (String × Outcome)
  | [], _ => []
  | fileName :: rest, program =>
      let outcome := Marker.run ⟨fileName, map⟩ program
      match outcome.result with
      | .error _ => [(fileName, outcome)]
      | .ok marked => (fileName, outcome) :: map.runs rest marked

end JsxProvenance
