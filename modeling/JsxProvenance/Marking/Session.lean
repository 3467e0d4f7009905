import JsxProvenance.Marking.Walk

/-!
Sessions: one marker used for many walks. The counts add up over all of them, and
are all that one walk hands on to the next; each has its own log, and may fail
without ending the session.
-/

namespace JsxProvenance

/-- What a session can be asked to walk over. -/
inductive Step where
  | program (program : Program)
  /-- The program that the latest walk over a program left. -/
  | again
  | element (element : Element)
deriving Repr

/-- What a walk left behind. -/
inductive Walked where
  | program (program : Program)
  | element (element : Element)
deriving Repr

/-- The outcome of a step. A walk that failed leaves what it had marked by then. -/
structure StepOutcome where
  walked : Walked
  records : List Record
  failure : Option NoFileFor
  /-- The totals of the session so far. -/
  counts : Counts
deriving Repr

/-- What a session remembers between its steps. -/
structure Session where
  counts : Counts := {}
  latest : Option Program := none
deriving Repr

namespace Session

/-- Walks over a program. -/
def stepProgram (marker : Marker) (session : Session) (program : Program) :
    StepOutcome × Session :=
  let (walked, progress) := (marker.walkProgram program).run (.start session.counts)
  (⟨.program walked, progress.records, progress.failure, progress.counts⟩,
    ⟨progress.counts, some walked⟩)

/-- Walks over one element. -/
def stepElement (marker : Marker) (session : Session) (element : Element) :
    StepOutcome × Session :=
  let (walked, progress) := (marker.walkElement element).run (.start session.counts)
  (⟨.element walked, progress.records, progress.failure, progress.counts⟩,
    { session with counts := progress.counts })

/-- Does one step. There is none to do for `again` before the first program. -/
def step? (marker : Marker) (session : Session) : Step → Option (StepOutcome × Session)
  | .program program => some (session.stepProgram marker program)
  | .again => session.latest.map (session.stepProgram marker)
  | .element element => some (session.stepElement marker element)

/-- Does all steps, one after the other. -/
def steps (marker : Marker) (session : Session) : List Step → List StepOutcome
  | [] => []
  | step :: rest =>
      match session.step? marker step with
      | none => session.steps marker rest
      | some (outcome, next) => outcome :: next.steps marker rest

end Session

end JsxProvenance
