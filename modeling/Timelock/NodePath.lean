import Timelock.Analyzed
import Timelock.Text.Quoted

/-!
# Node paths

A node of an analyzed proposal is addressed by indices from the root.  Paths are listed level
by level, or below a node with descendants first; both lists follow the order of the tree.
-/

namespace Timelock

inductive NodePath where
  | proposal
  | batch (batch : Nat)
  | call (batch call : Nat)
  | parameter (batch call : Nat) (direction : Direction) (index : Nat)
  deriving DecidableEq

namespace NodePath

def level : NodePath → Level
  | .proposal => .proposal
  | .batch _ => .batchOperation
  | .call _ _ => .call
  | .parameter _ _ _ _ => .parameter

def indexText (word : String) (n : Nat) : String :=
  word ++ "[" ++ Text.decimal n ++ "]"

def text : NodePath → String
  | .proposal => "proposal"
  | .batch b => indexText "batch" b
  | .call b c => indexText "batch" b ++ "." ++ indexText "call" c
  | .parameter b c d i =>
      indexText "batch" b ++ "." ++ indexText "call" c ++ "." ++ indexText d.name i

def batchAt? (t : AnalyzedProposal) (b : Nat) : Option AnalyzedBatch :=
  t.node.batches[b]?

def callAt? (t : AnalyzedProposal) (b c : Nat) : Option AnalyzedCall := do
  (← batchAt? t b).node.calls[c]?

def parameterAt? (t : AnalyzedProposal) (b c : Nat) (d : Direction) (i : Nat) :
    Option AnalyzedParameter := do
  ((← callAt? t b c).node.side d)[i]?

/-- The annotations of the node at a path, or `none` without such a node. -/
def annotations? (t : AnalyzedProposal) : NodePath → Option (List Annotation)
  | .proposal => some t.annotations
  | .batch b => (batchAt? t b).map Annotated.annotations
  | .call b c => (callAt? t b c).map Annotated.annotations
  | .parameter b c d i => (parameterAt? t b c d i).map Annotated.annotations

def exists? (t : AnalyzedProposal) (p : NodePath) : Bool := (p.annotations? t).isSome

def modifyBatch (t : AnalyzedProposal) (b : Nat) (f : AnalyzedBatch → AnalyzedBatch) :
    AnalyzedProposal :=
  { t with node := { batches := t.node.batches.modify b f } }

def modifyCall (t : AnalyzedProposal) (b c : Nat) (f : AnalyzedCall → AnalyzedCall) :
    AnalyzedProposal :=
  modifyBatch t b fun x ↦ { x with node := { x.node with calls := x.node.calls.modify c f } }

def modifySide (x : AnalyzedCall) (d : Direction) (i : Nat)
    (f : AnalyzedParameter → AnalyzedParameter) : AnalyzedCall :=
  match d with
  | .input => { x with node := { x.node with inputs := x.node.inputs.modify i f } }
  | .output => { x with node := { x.node with outputs := x.node.outputs.modify i f } }

/-- Add annotations at the end of a node's list; without such a node nothing changes. -/
def append (t : AnalyzedProposal) (as : List Annotation) : NodePath → AnalyzedProposal
  | .proposal => t.add as
  | .batch b => modifyBatch t b (·.add as)
  | .call b c => modifyCall t b c (·.add as)
  | .parameter b c d i => modifyCall t b c (fun x ↦ modifySide x d i (·.add as))

def sidePaths (b c : Nat) (d : Direction) (count : Nat) : List NodePath :=
  (List.range count).map (.parameter b c d)

def parameterPaths (b c : Nat) (x : AnalyzedCall) : List NodePath :=
  sidePaths b c .input x.node.inputs.length ++ sidePaths b c .output x.node.outputs.length

def callPaths (b : Nat) (x : AnalyzedBatch) : List NodePath :=
  (List.range x.node.calls.length).map (.call b)

def allAt (t : AnalyzedProposal) : Level → List NodePath
  | .proposal => [.proposal]
  | .batchOperation => (List.range t.node.batches.length).map .batch
  | .call => t.node.batches.zipIdx.flatMap (fun (x, b) ↦ callPaths b x)
  | .parameter => t.node.batches.zipIdx.flatMap fun (x, b) ↦
      x.node.calls.zipIdx.flatMap fun (y, c) ↦ parameterPaths b c y

def callSubtree (t : AnalyzedProposal) (b c : Nat) : List NodePath :=
  match callAt? t b c with
  | some x => parameterPaths b c x ++ [.call b c]
  | none => [.call b c]

def batchSubtree (t : AnalyzedProposal) (b : Nat) : List NodePath :=
  match batchAt? t b with
  | some x => (List.range x.node.calls.length).flatMap (callSubtree t b) ++ [.batch b]
  | none => [.batch b]

/-- A path and the paths below it, descendants first.  A path without a node stands alone. -/
def subtree (t : AnalyzedProposal) : NodePath → List NodePath
  | .proposal => (List.range t.node.batches.length).flatMap (batchSubtree t) ++ [.proposal]
  | .batch b => batchSubtree t b
  | .call b c => callSubtree t b c
  | .parameter b c d i => [.parameter b c d i]

end NodePath

end Timelock
