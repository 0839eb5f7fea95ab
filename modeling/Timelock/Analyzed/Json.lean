import Timelock.Analyzed
import Timelock.Annotation.Json
import Timelock.Decoded.Json

/-!
# Analyzed proposals as JSON

Every node prints its annotations last.  A call's additional fields are left out when they are
null.
-/

namespace Timelock

open Json

def Level.decoder : Decoder Level := .choice named

namespace AnalyzedParameter

def toJson (p : AnalyzedParameter) : Value :=
  .object [
    ("name", .string p.node.name),
    ("type", .string p.node.kind),
    ("value", p.node.value.value),
    ("annotations", Annotation.listJson p.annotations)]

end AnalyzedParameter

namespace AnalyzedCall

def toJson (c : AnalyzedCall) : Value :=
  let additional :=
    if c.node.additionalFields.isNull then []
    else [("additionalFields", c.node.additionalFields.value)]
  .object ([
    ("address", .string c.node.address),
    ("method", .string c.node.method),
    ("contractType", .string c.node.contractType),
    ("contractVersion", .string c.node.contractVersion),
    ("data", .string (Hex.encode c.node.data))] ++ additional ++ [
    ("inputs", .array (c.node.inputs.map AnalyzedParameter.toJson)),
    ("outputs", .array (c.node.outputs.map AnalyzedParameter.toJson)),
    ("annotations", Annotation.listJson c.annotations)])

end AnalyzedCall

namespace AnalyzedBatch

def toJson (b : AnalyzedBatch) : Value :=
  .object [
    ("chainSelector", .word b.node.chainSelector),
    ("calls", .array (b.node.calls.map AnalyzedCall.toJson)),
    ("annotations", Annotation.listJson b.annotations)]

end AnalyzedBatch

namespace AnalyzedProposal

def toJson (t : AnalyzedProposal) : Value :=
  .object [
    ("batchOperations", .array (t.node.batches.map AnalyzedBatch.toJson)),
    ("annotations", Annotation.listJson t.annotations)]

end AnalyzedProposal

end Timelock
