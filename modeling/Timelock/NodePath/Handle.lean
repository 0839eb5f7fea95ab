import Timelock.NodePath

/-!
# Handles

A handle on a part of a value has the part as it stands, and the value with anything else in its
place.  A path is followed from the root of a tree to a handle on the annotations of its node.
-/

namespace Timelock

structure Handle (σ α : Type) where
  part : α
  replace : α → σ

namespace Handle

variable {σ α β : Type}

def item? (xs : List α) (i : Nat) : Option (Handle (List α) α) :=
  xs[i]?.map fun a ↦ ⟨a, xs.set i⟩

/-- A part of a part, which is replaced in the whole. -/
def through (outer : Handle σ α) (inner : Handle α β) : Handle σ β :=
  ⟨inner.part, fun b ↦ outer.replace (inner.replace b)⟩

def update (h : Handle σ α) (f : α → α) : σ := h.replace (f h.part)

end Handle

namespace Annotated

variable {α : Type}

def notes (x : Annotated α) : Handle (Annotated α) (List Annotation) :=
  ⟨x.annotations, fun as ↦ { x with annotations := as }⟩

end Annotated

namespace AnalyzedCall

def parameter? (x : AnalyzedCall) (d : Direction) (i : Nat) :
    Option (Handle AnalyzedCall AnalyzedParameter) :=
  match d with
  | .input => (Handle.item? x.node.inputs i).map
      (.through ⟨x.node.inputs, fun ps ↦ { x with node := { x.node with inputs := ps } }⟩)
  | .output => (Handle.item? x.node.outputs i).map
      (.through ⟨x.node.outputs, fun ps ↦ { x with node := { x.node with outputs := ps } }⟩)

end AnalyzedCall

namespace AnalyzedBatch

def call? (x : AnalyzedBatch) (c : Nat) : Option (Handle AnalyzedBatch AnalyzedCall) :=
  (Handle.item? x.node.calls c).map
    (.through ⟨x.node.calls, fun ys ↦ { x with node := { x.node with calls := ys } }⟩)

end AnalyzedBatch

namespace AnalyzedProposal

def batch? (t : AnalyzedProposal) (b : Nat) : Option (Handle AnalyzedProposal AnalyzedBatch) :=
  (Handle.item? t.node.batches b).map
    (.through ⟨t.node.batches, fun xs ↦ { t with node := { batches := xs } }⟩)

end AnalyzedProposal

namespace NodePath

/-- The annotations of the node at a path, to be replaced in the tree; `none` without such a
node. -/
def handle? (t : AnalyzedProposal) :
    NodePath → Option (Handle AnalyzedProposal (List Annotation))
  | .proposal => some t.notes
  | .batch b => do
      let x ← t.batch? b
      return x.through x.part.notes
  | .call b c => do
      let x ← t.batch? b
      let y ← x.part.call? c
      return (x.through y).through y.part.notes
  | .parameter b c d i => do
      let x ← t.batch? b
      let y ← x.part.call? c
      let p ← y.part.parameter? d i
      return ((x.through y).through p).through p.part.notes

end NodePath

end Timelock
