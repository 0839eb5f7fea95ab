import Timelock.Decoded
import Timelock.Registration
import Timelock.Text.Quoted

/-!
# Decoder configuration

The tables that a proposal is decoded with: interface descriptions by contract, and decoders by
program.  Entries are registered all together or not at all, and none is ever replaced.
-/

namespace Timelock

inductive DecodeError where
  | malformedProposal (reason : String)
  | unknownContract (contract : String)
  | unknownProgram (program : String)
  | lookup (chainSelector : UInt64) (reason : String)
  | other (reason : String)
  deriving DecidableEq

namespace DecodeError

def message : DecodeError → String
  | .malformedProposal r => "Malformed proposal: " ++ r
  | .unknownContract c => "No ABI registered for contract '" ++ c ++ "'"
  | .unknownProgram p => "No instruction decoder registered for program '" ++ p ++ "'"
  | .lookup c r => "On-chain lookup failed on chain " ++ Text.decimal c.toNat ++ ": " ++ r
  | .other r => r

end DecodeError

/-- Decodes the instructions of one program; its name is the contract type of the calls. -/
structure InstructionDecoder where
  programName : String
  decode : (program : String) → (data : List UInt8) → (accounts : Json.FreeValue) →
    Except DecodeError DecodedCall

structure DecoderConfig where
  evmAbis : Table String := .empty
  solanaDecoders : Table InstructionDecoder := .empty

namespace DecoderConfig

def abi? (c : DecoderConfig) (contract : String) : Option String := c.evmAbis.get? contract

def abiFor? (c : DecoderConfig) (kind version : String) : Option String :=
  c.abi? (contractIdentifier kind version)

def solanaDecoder? (c : DecoderConfig) (program : String) : Option InstructionDecoder :=
  c.solanaDecoders.get? program

def summary (c : DecoderConfig) : String :=
  "DecoderConfig \x7b evm_abi_mappings: " ++ Text.quotedList c.evmAbis.keys ++
    ", solana_decoders: " ++ Text.quotedList c.solanaDecoders.keys ++ " \x7d"

section Registering

variable {α : Type}

/-- What is wrong with a new entry: a blank key is reported before one that is taken, and that
before a blank text. -/
def entryError? (kind : MappingKind) (text : α → String) (present : Table α)
    (entry : String × α) : Option RegistrationError :=
  if Text.allBlank entry.1 then some (.emptyMappingKey kind)
  else if present.contains entry.1 then some (.duplicateMapping kind entry.1)
  else if Text.allBlank (text entry.2) then some (.emptyMappingValue kind entry.1)
  else none

/-- Add every entry or, with the error of the smallest bad key, none. -/
def addEntries (kind : MappingKind) (text : α → String) (present new : Table α) :
    Except RegistrationError (Table α) :=
  match new.entries.findSome? (entryError? kind text present) with
  | some e => .error e
  | none => .ok (new.entries.foldl (fun t e ↦ t.put e.1 e.2) present)

end Registering

def registerAbis (c : DecoderConfig) (new : Table String) :
    Except RegistrationError DecoderConfig := do
  let abis ← addEntries .evmAbi id c.evmAbis new
  return { c with evmAbis := abis }

def registerPrograms (c : DecoderConfig) (new : Table InstructionDecoder) :
    Except RegistrationError DecoderConfig := do
  let decoders ← addEntries .solanaDecoder InstructionDecoder.programName c.solanaDecoders new
  return { c with solanaDecoders := decoders }

end DecoderConfig

end Timelock
