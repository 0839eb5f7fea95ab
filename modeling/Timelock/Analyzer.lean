import Timelock.Activity
import Timelock.DependencyGraph.Order
import Timelock.DependencyStore
import Timelock.ExecutionContext
import Timelock.NodeScope

/-!
# Analyzers

An analyzer looks at the nodes of one level.  It first says whether it takes a node on, and then
returns annotations for it, fails, or breaks down.
-/

namespace Timelock

inductive AnalyzerError where
  | message (text : String)
  | cancelled
  | kindMismatch (kind target : Level)
  | other (text : String)
  deriving DecidableEq

namespace AnalyzerError

def text : AnalyzerError → String
  | .message t => t
  | .cancelled => "Analyzer observed cancellation"
  | .kindMismatch k t =>
      "Analyzer of kind " ++ k.name ++ " cannot analyze a " ++ t.name ++ " node"
  | .other t => t

end AnalyzerError

/-- How an analyzer comes back from a node; of a breakdown its message is known if it is text. -/
inductive Verdict where
  | answered (result : Except AnalyzerError (List Annotation))
  | panicked (message : Option String)

inductive Consent where
  | accepts
  | declines
  | panicked (message : Option String)
  deriving DecidableEq

namespace Consent

def isAccepted : Consent → Bool
  | .accepts => true
  | .declines | .panicked _ => false

/-- How an invocation without acceptance ends; `none` when the node is declined. -/
def refusal : Consent → Option Verdict
  | .accepts | .declines => none
  | .panicked message => some (.panicked message)

end Consent

structure AnalyzerContext where
  execution : ExecutionContext
  scope : NodeScope
  dependencies : DependencyStore

structure Analyzer where
  id : String
  level : Level
  dependencies : List String := []
  /-- Whether a node is taken on; without this every node is. -/
  consult : Option (AnalyzerContext → Target → Activity Consent) := none
  analyze : AnalyzerContext → Target → Activity Verdict

namespace Analyzer

def declaration (a : Analyzer) : Declaration := ⟨a.id, a.dependencies⟩

def work (a : Analyzer) (x : AnalyzerContext) (t : Target) : Activity (Option Verdict) :=
  .note .began ((a.analyze x t).map some)

/-- The whole work on a node; the result is `none` when the node is declined. -/
def invocation (a : Analyzer) (x : AnalyzerContext) (t : Target) : Activity (Option Verdict) :=
  if t.level = a.level then
    match a.consult with
    | none => a.work x t
    | some ask =>
        .note .consulted ((ask x t).continueIf Consent.isAccepted (a.work x t) Consent.refusal)
  else .result (some (.answered (.error (.kindMismatch a.level t.level))))

end Analyzer

end Timelock
