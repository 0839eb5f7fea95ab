import Timelock.Json.Value
import Timelock.Report

/-!
# Reports as JSON

An outcome is an object with its status, and a record names its node by the text of the path.
-/

namespace Timelock

open Json

namespace Outcome

def toJson (o : Outcome) : Value :=
  let details : List (String × Value) := match o with
    | .succeeded n => [("annotations", .nat n)]
    | .skipped => []
    | .failed e => [("error", .string e)]
    | .timedOut ms => [("timeout_ms", .word ms)]
  .object (("status", .string o.label) :: details)

end Outcome

namespace OutcomeRecord

def toJson (r : OutcomeRecord) : Value :=
  .object [
    ("analyzer_id", .string r.analyzer),
    ("path", .string r.path.text),
    ("label", .string r.outcome.label),
    ("duration_ms", .nat r.durationMs),
    ("outcome", r.outcome.toJson)]

end OutcomeRecord

namespace OutcomeSummary

def toJson (s : OutcomeSummary) : Value :=
  .object [
    ("succeeded", .nat s.succeeded),
    ("skipped", .nat s.skipped),
    ("failed", .nat s.failed),
    ("timed_out", .nat s.timedOut)]

end OutcomeSummary

end Timelock
