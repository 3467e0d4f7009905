import JsxProvenance.Job
import JsxProvenance.Json.Grammar
import JsxProvenance.Marking.Erase
import JsxProvenance.Marking.Mark
import JsxProvenance.Marking.Place
import JsxProvenance.Marking.Session
import JsxProvenance.Proofs.Job.Naming
import JsxProvenance.Proofs.Json.Completeness
import JsxProvenance.Proofs.Marking.Failure
import JsxProvenance.Proofs.Marking.LineNumber
import JsxProvenance.Proofs.Marking.Repetition
import JsxProvenance.Proofs.Marking.Session
import JsxProvenance.Proofs.Options.Printed
import JsxProvenance.Tree.Induction
import JsxProvenance.Tree.Object
import JsxProvenance.Tree.Spans
import JsxProvenance.Proofs.Json.Soundness
import JsxProvenance.Proofs.Marking.Erasure
import JsxProvenance.Proofs.Options.Accepted
import JsxProvenance.Proofs.Job.Fallback
import JsxProvenance.Proofs.Marking.Accounts
import JsxProvenance.Proofs.Marking.Abort
import JsxProvenance.Proofs.Marking.Relocation
import JsxProvenance.Proofs.Job.Spelling
import JsxProvenance.Proofs.Json.Faults
import JsxProvenance.Proofs.Options.Padding
import JsxProvenance.Proofs.Marking.FixedPoint
import JsxProvenance.Proofs.Marking.Precision
