import Timelock.Analyzer

/-!
# Analysis reports

The analyzed tree of a finished run with one record for every analyzer and node.
-/

namespace Timelock

/-- What came of one analyzer on one node. -/
inductive Outcome where
  | succeeded (annotations : Nat)
  | skipped
  | failed (error : String)
  | timedOut (timeoutMs : UInt64)
  deriving DecidableEq

namespace Outcome

def label : Outcome → String
  | .succeeded _ => "succeeded"
  | .skipped => "skipped"
  | .failed _ => "failed"
  | .timedOut _ => "timed_out"

end Outcome

structure OutcomeRecord where
  analyzer : String
  path : NodePath
  outcome : Outcome
  durationMs : Nat
  deriving DecidableEq

structure OutcomeSummary where
  succeeded : Nat := 0
  skipped : Nat := 0
  failed : Nat := 0
  timedOut : Nat := 0
  deriving DecidableEq

namespace OutcomeSummary

def add (s : OutcomeSummary) : Outcome → OutcomeSummary
  | .succeeded _ => { s with succeeded := s.succeeded + 1 }
  | .skipped => { s with skipped := s.skipped + 1 }
  | .failed _ => { s with failed := s.failed + 1 }
  | .timedOut _ => { s with timedOut := s.timedOut + 1 }

end OutcomeSummary

structure Report where
  context : ExecutionContext
  tree : AnalyzedProposal
  outcomes : List OutcomeRecord

namespace Report

def summary (r : Report) : OutcomeSummary :=
  r.outcomes.foldl (fun s x ↦ s.add x.outcome) {}

def outcomesFor (r : Report) (analyzer : String) : List OutcomeRecord :=
  r.outcomes.filter (fun x ↦ x.analyzer = analyzer)

end Report

end Timelock
