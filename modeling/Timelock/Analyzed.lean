import Timelock.Annotation
import Timelock.Decoded

/-!
# Analyzed proposals

A decoded proposal with a list of annotations on every node.  Annotations are only ever added
at the end of a list, and the calls below them do not change.
-/

namespace Timelock

/-- The four kinds of nodes, from the root down. -/
inductive Level where
  | proposal
  | batchOperation
  | call
  | parameter
  deriving DecidableEq

namespace Level

def name : Level → String
  | .proposal => "proposal"
  | .batchOperation => "batch_operation"
  | .call => "call"
  | .parameter => "parameter"

def all : List Level := [.proposal, .batchOperation, .call, .parameter]

def named : List (String × Level) := all.map (fun l ↦ (l.name, l))

def rank : Level → Nat
  | .proposal => 0
  | .batchOperation => 1
  | .call => 2
  | .parameter => 3

end Level

structure Annotated (α : Type) where
  node : α
  annotations : List Annotation := []
  deriving DecidableEq

namespace Annotated

variable {α : Type}

def bare (a : α) : Annotated α := ⟨a, []⟩

def add (x : Annotated α) (as : List Annotation) : Annotated α :=
  { x with annotations := x.annotations ++ as }

end Annotated

abbrev AnalyzedParameter := Annotated Parameter
abbrev AnalyzedCall := Annotated (Call AnalyzedParameter)
abbrev AnalyzedBatch := Annotated (CallBatch AnalyzedCall)
abbrev AnalyzedProposal := Annotated (CallTree AnalyzedBatch)

namespace AnalyzedCall

def ofDecoded (c : DecodedCall) : AnalyzedCall := .bare (c.map .bare)

def decoded (c : AnalyzedCall) : DecodedCall := c.node.map Annotated.node

end AnalyzedCall

namespace AnalyzedBatch

def ofDecoded (b : DecodedBatch) : AnalyzedBatch := .bare (b.map AnalyzedCall.ofDecoded)

def decoded (b : AnalyzedBatch) : DecodedBatch := b.node.map AnalyzedCall.decoded

end AnalyzedBatch

namespace AnalyzedProposal

def ofDecoded (d : DecodedProposal) : AnalyzedProposal := .bare (d.map AnalyzedBatch.ofDecoded)

def decoded (t : AnalyzedProposal) : DecodedProposal := t.node.map AnalyzedBatch.decoded

def atLevel (l : Level) (as : List Annotation) : List (Level × Annotation) :=
  as.map (fun a ↦ (l, a))

def callAnnotations (c : AnalyzedCall) : List (Level × Annotation) :=
  c.node.parameters.flatMap (fun p ↦ atLevel .parameter p.annotations) ++
    atLevel .call c.annotations

def batchAnnotations (b : AnalyzedBatch) : List (Level × Annotation) :=
  b.node.calls.flatMap callAnnotations ++ atLevel .batchOperation b.annotations

/-- All annotations, those of a node after those of its descendants. -/
def allAnnotations (t : AnalyzedProposal) : List (Level × Annotation) :=
  t.node.batches.flatMap batchAnnotations ++ atLevel .proposal t.annotations

end AnalyzedProposal

end Timelock
