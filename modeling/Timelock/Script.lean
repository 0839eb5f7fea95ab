import Timelock.Engine
import Timelock.Inspection

/-!
# Scripts

Collaborators of a run that follow a script: loaders and decoders that wait, cancel or fail
before they answer, and analyzers whose steps and annotations are listed.
-/

namespace Timelock

inductive Source where
  | node
  | scope
  | store (views : StoreViews)
  | visible
  | timeLeft
  | cancelled
  | environment (keys : List String)
  | execution
  | abi (contract : String)
  deriving DecidableEq

namespace Source

open Json in
def value (x : AnalyzerContext) (t : Target) (m : Moment) : Source → Value
  | .node => t.toJson
  | .scope => x.scope.toJson
  | .store v => x.dependencies.toJson v
  | .visible => Annotation.listJson x.dependencies.annotations
  | .timeLeft => .nat m.remaining
  | .cancelled => .bool m.cancelled
  | .environment keys => x.execution.environment.toJson keys
  | .execution => x.execution.overviewJson
  | .abi contract => stringOrNull (x.execution.decoderConfig.abi? contract)

end Source

inductive Emission where
  | given (content : Annotation)
  | computed (name kind : String) (source : Source)
  deriving DecidableEq

namespace Emission

def produce (x : AnalyzerContext) (t : Target) (m : Moment) : Emission → Annotation
  | .given a => a
  | .computed name kind source =>
      { name := name, kind := kind, value := .ofValue (source.value x t m) }

end Emission

inductive Acceptance where
  | always
  | fixed (answer : Bool)
  | labelled (labels : List String)
  deriving DecidableEq

namespace Target

/-- The name of a parameter, the method of a call, the chain of a batch, and the number of calls
of a proposal. -/
def label : Target → String
  | .parameter p => p.name
  | .call c => c.method
  | .batch b => Text.decimal b.chainSelector.toNat
  | .proposal d => Text.decimal d.callCount

end Target

namespace Acceptance

def consent (a : Acceptance) (t : Target) : Consent :=
  let accepted := match a with
    | .always => true
    | .fixed b => b
    | .labelled labels => labels.contains t.label
  if accepted then .accepts else .declines

end Acceptance

/-- The steps of an analyzer on a node, in the order in which they are taken. -/
structure Script where
  consultDelayMs : Nat := 0
  acceptance : Acceptance := .always
  delayMs : Nat := 0
  cancelsRun : Bool := false
  awaitsCancel : Bool := false
  checksCancelled : Bool := false
  panic : Option String := none
  failure : Option AnalyzerError := none
  /-- Return nothing when no dependency has left an annotation. -/
  requiresDependencies : Bool := false
  emissions : List Emission := []
  deriving DecidableEq

namespace Script

def consult (s : Script) (t : Target) : Activity Consent :=
  .sleep s.consultDelayMs (.result (s.acceptance.consent t))

def emit (s : Script) (x : AnalyzerContext) (t : Target) : Activity Verdict :=
  if s.requiresDependencies && x.dependencies.isEmpty then .result (.answered (.ok []))
  else .done fun m ↦ .answered (.ok (s.emissions.map (·.produce x t m)))

def finish (s : Script) (x : AnalyzerContext) (t : Target) : Activity Verdict :=
  match s.panic, s.failure with
  | some text, _ => .result (.panicked (some text))
  | none, some e => .result (.answered (.error e))
  | none, none => s.emit x t

def heedCancellation (s : Script) (next : Activity Verdict) : Activity Verdict :=
  if s.checksCancelled then
    .branch Moment.cancelled (.result (.answered (.error .cancelled))) next
  else next

def analyze (s : Script) (x : AnalyzerContext) (t : Target) : Activity Verdict :=
  let last := s.heedCancellation (s.finish x t)
  let waiting := if s.awaitsCancel then .awaitCancel last else last
  .sleep s.delayMs (if s.cancelsRun then .cancelRun waiting else waiting)

end Script

/-- An analyzer that follows one script, or others on certain nodes. -/
structure ScriptedAnalyzer where
  id : String
  level : Level
  dependencies : List String
  /-- Takes every node on without being consulted. -/
  eager : Bool := false
  script : Script
  exceptions : Table Script := .empty

namespace ScriptedAnalyzer

def scriptAt (a : ScriptedAnalyzer) (p : NodePath) : Script :=
  (a.exceptions.get? p.text).getD a.script

def toAnalyzer (a : ScriptedAnalyzer) : Analyzer where
  id := a.id
  level := a.level
  dependencies := a.dependencies
  consult := if a.eager then none else some fun x t ↦ (a.scriptAt x.scope.path).consult t
  analyze x t := (a.scriptAt x.scope.path).analyze x t

end ScriptedAnalyzer

/-- A call that waits, may cancel the run, and then fails or answers. -/
structure ScriptedCall (ε : Type) where
  delayMs : Nat := 0
  cancelsRun : Bool := false
  failure : Option ε := none
  deriving DecidableEq

namespace ScriptedCall

variable {ε α : Type}

def activity (c : ScriptedCall ε) (answer : Except ε α) : Activity (Except ε α) :=
  let last : Activity (Except ε α) := match c.failure with
    | some e => .result (.error e)
    | none => .result answer
  .sleep c.delayMs (if c.cancelsRun then .cancelRun last else last)

end ScriptedCall

def scriptedLoader (c : ScriptedCall EnvironmentError) (dir : ChainDirectory) :
    EnvironmentLoader := fun domain name chains ↦
  c.activity (dir.load domain name (some chains))

def scriptedDecoder (c : ScriptedCall DecodeError)
    (decode : DecoderConfig → Proposal → Except DecodeError DecodedProposal) : ProposalDecoder :=
  fun _ config p ↦ c.activity (decode config p)

end Timelock
