import Timelock.NodePath

/-!
# Node scopes

What an analyzer is told about its node: where it is, on which chain, and in which call.
-/

namespace Timelock

inductive Target where
  | proposal (node : DecodedProposal)
  | batch (node : DecodedBatch)
  | call (node : DecodedCall)
  | parameter (node : Parameter)
  deriving DecidableEq

namespace Target

def level : Target → Level
  | .proposal _ => .proposal
  | .batch _ => .batchOperation
  | .call _ => .call
  | .parameter _ => .parameter

end Target

structure NodeScope where
  path : NodePath
  chainSelector : Option UInt64 := none
  call : Option DecodedCall := none
  parameter : Option Parameter := none
  deriving DecidableEq

namespace NodeScope

/-- Scope and target at a path, or `none` without such a node. -/
def resolve (t : AnalyzedProposal) : NodePath → Option (NodeScope × Target)
  | .proposal => some ({ path := .proposal }, .proposal t.decoded)
  | .batch b => do
      let x ← NodePath.batchAt? t b
      return ({ path := .batch b, chainSelector := some x.node.chainSelector }, .batch x.decoded)
  | .call b c => do
      let x ← NodePath.batchAt? t b
      let y ← NodePath.callAt? t b c
      return ({ path := .call b c, chainSelector := some x.node.chainSelector,
                call := some y.decoded }, .call y.decoded)
  | .parameter b c d i => do
      let x ← NodePath.batchAt? t b
      let y ← NodePath.callAt? t b c
      let p ← NodePath.parameterAt? t b c d i
      return ({ path := .parameter b c d i, chainSelector := some x.node.chainSelector,
                call := some y.decoded, parameter := some p.node }, .parameter p.node)

def level (s : NodeScope) : Level := s.path.level

def callName (s : NodeScope) : Option String := s.call.map Call.method

def parameterName (s : NodeScope) : Option String := s.parameter.map Parameter.name

def text (s : NodeScope) : String :=
  let labelled (label : String) (v : Option String) : String :=
    match v with
    | some v => " " ++ label ++ "=" ++ v
    | none => ""
  s.path.text ++
    labelled "chain_selector" (s.chainSelector.map (fun n ↦ Text.decimal n.toNat)) ++
    labelled "call" s.callName ++ labelled "parameter" s.parameterName

end NodeScope

end Timelock
