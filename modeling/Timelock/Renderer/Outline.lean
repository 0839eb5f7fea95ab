import Timelock.Json.Printer
import Timelock.Renderer

/-!
# Outline renderer

The tree as indented lines: the proposal, its batches, their calls and the parameters, each with
its annotations below it.
-/

namespace Timelock.Renderer

def shown (v : Json.FreeValue) : String :=
  match v.value with
  | .string s => s
  | v => v.compact

def describe (a : Annotation) : String :=
  let source := match a.analyzer with
    | some id => " (" ++ id ++ ")"
    | none => ""
  a.name ++ " [" ++ a.kind ++ "]: " ++ shown a.value ++ source

/-- The lines of one node and of what stands below it, with their depths. -/
abbrev Lines := List (Nat × String)

def annotationLines (depth : Nat) (as : List Annotation) : Lines :=
  as.map (fun a ↦ (depth, "* " ++ describe a))

def parameterLines (d : Direction) (p : AnalyzedParameter) : Lines :=
  (3, d.name ++ " " ++ p.node.name ++ " (" ++ p.node.kind ++ ") = " ++ shown p.node.value) ::
    annotationLines 4 p.annotations

def callee (c : AnalyzedCall) : String :=
  if c.node.contractType = "" then c.node.address
  else c.node.contract ++ " at " ++ c.node.address

def callLines (index : Nat) (c : AnalyzedCall) : Lines :=
  (2, "Call " ++ Text.decimal index ++ ": " ++ c.node.method ++ " on " ++ callee c) ::
    (annotationLines 3 c.annotations ++ c.node.inputs.flatMap (parameterLines .input) ++
      c.node.outputs.flatMap (parameterLines .output))

def batchLines (index : Nat) (b : AnalyzedBatch) : Lines :=
  (1, "Batch " ++ Text.decimal index ++ " on chain " ++
      Text.decimal b.node.chainSelector.toNat) ::
    (annotationLines 2 b.annotations ++ b.node.calls.zipIdx.flatMap (fun (c, i) ↦ callLines i c))

def contextLines (c : RenderContext) : Lines := [
  (0, "Proposal: " ++ c.description),
  (0, "Environment: " ++ c.domain ++ "/" ++ c.environmentName),
  (0, "Chains: " ++
    ", ".intercalate (c.chainSelectors.toList.map (fun n ↦ Text.decimal n.toNat)))]

def outlineLines (c : RenderContext) (t : AnalyzedProposal) : Lines :=
  contextLines c ++ annotationLines 1 t.annotations ++
    t.node.batches.zipIdx.flatMap (fun (b, i) ↦ batchLines i b)

def lineText (indent : Nat) (line : Nat × String) : String :=
  String.ofList (List.replicate (indent * line.1) ' ') ++ line.2 ++ "\n"

def outlineText (indent : Nat) (c : RenderContext) (t : AnalyzedProposal) : String :=
  String.join ((outlineLines c t).map (lineText indent))

def outline (indent : Nat) : Renderer where
  id := "text"
  render c t := [⟨outlineText indent c t, .plain⟩]

end Timelock.Renderer
