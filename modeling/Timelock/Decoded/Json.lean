import Timelock.Decoded
import Timelock.Json.Record

/-!
# Decoded proposals as JSON

Of a call only the address and the method are required.
-/

namespace Timelock

open Json

namespace Direction

def decoder : Decoder Direction := .choice named

end Direction

namespace Parameter

def toJson (p : Parameter) : Value :=
  .object [("name", .string p.name), ("type", .string p.kind), ("value", p.value.value)]

def shape : Shape Parameter where
  title := "struct DecodedParameter"
  size := 3
  Field
    | 0 => String
    | 1 => String
    | 2 => FreeValue
  name
    | 0 => "name"
    | 1 => "type"
    | 2 => "value"
  decoder
    | 0 => .string
    | 1 => .string
    | 2 => .free
  default
    | 0 => none
    | 1 => none
    | 2 => none
  build f := ⟨f 0, f 1, f 2⟩

end Parameter

namespace DecodedCall

def toJson (c : DecodedCall) : Value :=
  .object [
    ("address", .string c.address),
    ("method", .string c.method),
    ("inputs", .array (c.inputs.map Parameter.toJson)),
    ("outputs", .array (c.outputs.map Parameter.toJson)),
    ("data", .string (Hex.encode c.data)),
    ("additionalFields", c.additionalFields.value),
    ("contractType", .string c.contractType),
    ("contractVersion", .string c.contractVersion)]

def shape : Shape DecodedCall where
  title := "struct DecodedCall"
  size := 8
  Field
    | 0 => String
    | 1 => String
    | 2 => List Parameter
    | 3 => List Parameter
    | 4 => List UInt8
    | 5 => FreeValue
    | 6 => String
    | 7 => String
  name
    | 0 => "address"
    | 1 => "method"
    | 2 => "inputs"
    | 3 => "outputs"
    | 4 => "data"
    | 5 => "additionalFields"
    | 6 => "contractType"
    | 7 => "contractVersion"
  decoder
    | 0 => .string
    | 1 => .string
    | 2 => .list Parameter.shape.decode
    | 3 => .list Parameter.shape.decode
    | 4 => .hex
    | 5 => .free
    | 6 => .string
    | 7 => .string
  default
    | 0 => none
    | 1 => none
    | 2 => some []
    | 3 => some []
    | 4 => some []
    | 5 => some .null
    | 6 => some ""
    | 7 => some ""
  build f := ⟨f 0, f 1, f 2, f 3, f 4, f 5, f 6, f 7⟩

end DecodedCall

namespace DecodedBatch

def toJson (b : DecodedBatch) : Value :=
  .object [
    ("chainSelector", .word b.chainSelector),
    ("calls", .array (b.calls.map DecodedCall.toJson))]

def shape : Shape DecodedBatch where
  title := "struct DecodedBatchOperation"
  size := 2
  Field
    | 0 => UInt64
    | 1 => List DecodedCall
  name
    | 0 => "chainSelector"
    | 1 => "calls"
  decoder
    | 0 => .word
    | 1 => .list DecodedCall.shape.decode
  default
    | 0 => none
    | 1 => none
  build f := ⟨f 0, f 1⟩

end DecodedBatch

namespace DecodedProposal

def toJson (d : DecodedProposal) : Value :=
  .object [("batchOperations", .array (d.batches.map DecodedBatch.toJson))]

def shape : Shape DecodedProposal where
  title := "struct DecodedTimelockProposal"
  size := 1
  Field
    | 0 => List DecodedBatch
  name
    | 0 => "batchOperations"
  decoder
    | 0 => .list DecodedBatch.shape.decode
  default
    | 0 => none
  build f := ⟨f 0⟩

def ofText (s : String) : Except Problem DecodedProposal := shape.decode.text s

end DecodedProposal

end Timelock
