import Timelock.Json.Free
import Timelock.OrderedSet

/-!
# Decoded proposals

The calls that a proposal's transactions make, with their parameters.  The layers of the tree
are generic in what stands below them, so that a tree of calls and the same tree with
annotations on its nodes have one shape.
-/

namespace Timelock

inductive Direction where
  | input
  | output
  deriving DecidableEq

namespace Direction

def name : Direction → String
  | .input => "input"
  | .output => "output"

def named : List (String × Direction) :=
  [.input, .output].map (fun d ↦ (d.name, d))

end Direction

structure Parameter where
  name : String
  kind : String
  value : Json.FreeValue
  deriving DecidableEq

structure Call (π : Type) where
  address : String
  method : String
  inputs : List π := []
  outputs : List π := []
  data : List UInt8 := []
  additionalFields : Json.FreeValue := .null
  contractType : String := ""
  contractVersion : String := ""
  deriving DecidableEq

structure CallBatch (κ : Type) where
  chainSelector : UInt64
  calls : List κ
  deriving DecidableEq

structure CallTree (β : Type) where
  batches : List β
  deriving DecidableEq

abbrev DecodedCall := Call Parameter
abbrev DecodedBatch := CallBatch DecodedCall
abbrev DecodedProposal := CallTree DecodedBatch

/-- A contract's type, and its version if there is one: the version prints after one `v`,
however many it starts with. -/
def contractIdentifier (kind version : String) : String :=
  if version = "" then kind
  else kind ++ " v" ++ String.ofList (version.toList.dropWhile (· == 'v'))

namespace Call

variable {π ρ : Type}

def map (f : π → ρ) (c : Call π) : Call ρ :=
  { address := c.address, method := c.method, inputs := c.inputs.map f,
    outputs := c.outputs.map f, data := c.data, additionalFields := c.additionalFields,
    contractType := c.contractType, contractVersion := c.contractVersion }

def contract (c : Call π) : String := contractIdentifier c.contractType c.contractVersion

def parameters (c : Call π) : List π := c.inputs ++ c.outputs

def side (c : Call π) : Direction → List π
  | .input => c.inputs
  | .output => c.outputs

def ofAddress (address method : String) : Call π :=
  { address := address, method := method }

def withData (c : Call π) (data : List UInt8) : Call π := { c with data := data }

def withContract (c : Call π) (kind version : String) : Call π :=
  { c with contractType := kind, contractVersion := version }

def withInput (c : Call π) (p : π) : Call π := { c with inputs := c.inputs ++ [p] }

def withOutput (c : Call π) (p : π) : Call π := { c with outputs := c.outputs ++ [p] }

def withAdditionalFields (c : Call π) (v : Json.FreeValue) : Call π :=
  { c with additionalFields := v }

end Call

namespace CallBatch

variable {κ μ : Type}

def map (f : κ → μ) (b : CallBatch κ) : CallBatch μ :=
  { chainSelector := b.chainSelector, calls := b.calls.map f }

end CallBatch

namespace CallTree

variable {β γ : Type}

def map (f : β → γ) (t : CallTree β) : CallTree γ := { batches := t.batches.map f }

end CallTree

namespace DecodedProposal

def calls (d : DecodedProposal) : List DecodedCall :=
  d.batches.flatMap CallBatch.calls

def chainSelectors (d : DecodedProposal) : Selectors :=
  .ofList (d.batches.map CallBatch.chainSelector)

def callCount (d : DecodedProposal) : Nat := d.calls.length

def parameterCount (d : DecodedProposal) : Nat :=
  (d.calls.flatMap (fun c ↦ c.inputs ++ c.outputs)).length

end DecodedProposal

end Timelock
