import Timelock.Json.Record
import Timelock.Proposal

/-!
# Proposals as JSON

Fields print in order of declaration.  All fields of a proposal but its operations may be left
out, and so may a transaction's contract type, tags and additional fields.
-/

namespace Timelock

open Json

namespace Action

def toJson (a : Action) : Value := .string a.name

def decoder : Decoder Action := .choice named

end Action

namespace Transaction

def toJson (t : Transaction) : Value :=
  .object [
    ("to", .string t.destination),
    ("data", .string (Hex.encode t.data)),
    ("contractType", .string t.contractType),
    ("tags", .strings t.tags),
    ("additionalFields", t.additionalFields.value)]

def shape : Shape Transaction where
  title := "struct Transaction"
  size := 5
  Field
    | 0 => String
    | 1 => List UInt8
    | 2 => String
    | 3 => List String
    | 4 => FreeValue
  name
    | 0 => "to"
    | 1 => "data"
    | 2 => "contractType"
    | 3 => "tags"
    | 4 => "additionalFields"
  decoder
    | 0 => .string
    | 1 => .hex
    | 2 => .string
    | 3 => .list .string
    | 4 => .free
  default
    | 0 => none
    | 1 => none
    | 2 => some ""
    | 3 => some []
    | 4 => some .null
  build f := ⟨f 0, f 1, f 2, f 3, f 4⟩

end Transaction

namespace Batch

def toJson (b : Batch) : Value :=
  .object [
    ("chainSelector", .word b.chainSelector),
    ("transactions", .array (b.transactions.map Transaction.toJson))]

def shape : Shape Batch where
  title := "struct BatchOperation"
  size := 2
  Field
    | ⟨0, _⟩ => UInt64
    | ⟨1, _⟩ => List Transaction
  name
    | ⟨0, _⟩ => "chainSelector"
    | ⟨1, _⟩ => "transactions"
  decoder
    | ⟨0, _⟩ => .word
    | ⟨1, _⟩ => .list Transaction.shape.decode
  default
    | ⟨0, _⟩ => none
    | ⟨1, _⟩ => none
  build f := ⟨f ⟨0, by decide⟩, f ⟨1, by decide⟩⟩

end Batch

inductive ProposalTextError where
  | unreadable (problem : Problem)
  | invalid (error : ProposalError)
  deriving DecidableEq

namespace Proposal

def toJson (p : Proposal) : Value :=
  .object [
    ("version", .string p.version),
    ("description", .string p.description),
    ("action", p.action.toJson),
    ("delaySeconds", .word p.delaySeconds),
    ("operations", .array (p.operations.map Batch.toJson))]

def shape : Shape Proposal where
  title := "struct TimelockProposal"
  size := 5
  Field
    | 0 => String
    | 1 => String
    | 2 => Action
    | 3 => UInt64
    | 4 => List Batch
  name
    | 0 => "version"
    | 1 => "description"
    | 2 => "action"
    | 3 => "delaySeconds"
    | 4 => "operations"
  decoder
    | 0 => .string
    | 1 => .string
    | 2 => Action.decoder
    | 3 => .word
    | 4 => .list Batch.shape.decode
  default
    | 0 => some "v1"
    | 1 => some ""
    | 2 => some .schedule
    | 3 => some 0
    | 4 => none
  build f := ⟨f 0, f 1, f 2, f 3, f 4⟩

/-- Read a proposal and check that it is well formed. -/
def ofText (s : String) : Except ProposalTextError Proposal :=
  match shape.decode.text s with
  | .error p => .error (.unreadable p)
  | .ok p =>
      match p.validate with
      | .error e => .error (.invalid e)
      | .ok () => .ok p

end Proposal

end Timelock
