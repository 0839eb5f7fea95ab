import Timelock.DecoderConfig
import Timelock.Proposal

/-!
# Decoding by tables

A transaction whose contract type has a version after a space is decoded by the interface
description of its contract; any other by the program that it is addressed to.
-/

namespace Timelock

namespace DecoderConfig

def splitContract? (s : String) : Option (String × String) :=
  let kind := s.toList.takeWhile (· ≠ ' ')
  match s.toList.drop kind.length with
  | [] => none
  | _ :: version => some (String.ofList kind, String.ofList version)

def contractCall (t : Transaction) (kind version abi : String) : DecodedCall :=
  Call.ofAddress t.destination "transfer"
    |>.withContract kind version
    |>.withData t.data
    |>.withInput ⟨"abi", "string", .string abi⟩
    |>.withOutput ⟨"tags", "string[]", .array (t.tags.map .string)⟩

def decodeTransaction (c : DecoderConfig) (t : Transaction) : Except DecodeError DecodedCall :=
  match splitContract? t.contractType with
  | some (kind, version) =>
      match c.abiFor? kind version with
      | some abi => .ok (contractCall t kind version abi)
      | none => .error (.unknownContract t.contractType)
  | none =>
      match c.solanaDecoder? t.destination with
      | some d => d.decode t.destination t.data t.additionalFields
      | none => .error (.unknownProgram t.destination)

def decodeBatch (c : DecoderConfig) (b : Batch) : Except DecodeError DecodedBatch := do
  return ⟨b.chainSelector, ← b.transactions.mapM c.decodeTransaction⟩

/-- One batch for each operation and one call for each transaction. -/
def decodeProposal (c : DecoderConfig) (p : Proposal) : Except DecodeError DecodedProposal := do
  return ⟨← p.operations.mapM c.decodeBatch⟩

end DecoderConfig

/-- A decoder for the instructions of a program that have at least one byte: the call shows the
first byte and the length. -/
def instructionShape (name method : String) : InstructionDecoder where
  programName := name
  decode program data accounts :=
    match data with
    | [] => .error (.malformedProposal "empty instruction")
    | first :: _ => .ok (Call.ofAddress program method
        |>.withContract name ""
        |>.withData data
        |>.withInput ⟨"first", "u8", .nat first.toNat⟩
        |>.withInput ⟨"length", "u64", .nat data.length⟩
        |>.withAdditionalFields accounts)

end Timelock
