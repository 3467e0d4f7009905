import JsxProvenance.Options
import JsxProvenance.Tree.Basic

/-!
What is recorded while programs are marked: how many opening tags were met, and
the records of the log.
-/

namespace JsxProvenance

/-- The attribute that holds the place an element was written at. -/
def sourceName : String := "__source"

/-- The opening tags met so far, by what became of them. -/
structure Counts where
  opening : Nat := 0
  selfClosing : Nat := 0
  /-- Tags without a position, which stay as they are. -/
  skipped : Nat := 0
deriving DecidableEq, Repr

namespace Counts

instance : Inhabited Counts := ⟨{}⟩

def marked (counts : Counts) : Nat :=
  counts.opening + counts.selfClosing

/-- Counts a tag that was marked. -/
def add (counts : Counts) : TagForm → Counts
  | .opening => { counts with opening := counts.opening + 1 }
  | .selfClosing => { counts with selfClosing := counts.selfClosing + 1 }

/-- Counts a tag that was passed over. -/
def skip (counts : Counts) : Counts :=
  { counts with skipped := counts.skipped + 1 }

end Counts

inductive Level where
  | debug
  | warning
deriving DecidableEq, Repr

def Level.name : Level → String
  | .debug => "DEBUG"
  | .warning => "WARN"

/-- A record of the log. -/
inductive Record where
  /-- A tag has no position, and is not marked. -/
  | noPosition (fileName : String) (form : TagForm)
  /-- A program has been marked. -/
  | added (fileName : String) (counts : Counts)
  /-- The options could not be read, and the default is used instead. -/
  | optionsIgnored (error : OptionsError)
deriving Repr

namespace Record

def level : Record → Level
  | .noPosition _ _ | .added _ _ => .debug
  | .optionsIgnored _ => .warning

def message : Record → String
  | .noPosition fileName form =>
      fileName ++ ": no position for " ++ form.name ++ " element, left as is"
  | .added fileName counts =>
      fileName ++ ": added " ++ sourceName ++ " to " ++ toString counts.marked ++
        " element(s) (" ++ toString counts.opening ++ " opening, " ++
        toString counts.selfClosing ++ " self-closing, " ++ toString counts.skipped ++ " skipped)"
  | .optionsIgnored error => "ignoring plugin config: " ++ error.message

end Record

end JsxProvenance
