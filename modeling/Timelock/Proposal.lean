import Timelock.Json.Free
import Timelock.Text.Quoted

/-!
# Timelock proposals

A proposal schedules, cancels or bypasses batches of transactions, each batch on one chain.
It is well formed when it has a batch and no batch is empty.
-/

namespace Timelock

inductive Action where
  | schedule
  | cancel
  | bypass
  deriving DecidableEq

namespace Action

def name : Action → String
  | .schedule => "schedule"
  | .cancel => "cancel"
  | .bypass => "bypass"

def named : List (String × Action) :=
  [.schedule, .cancel, .bypass].map (fun a ↦ (a.name, a))

end Action

structure Transaction where
  destination : String
  data : List UInt8
  contractType : String := ""
  tags : List String := []
  additionalFields : Json.FreeValue := .null
  deriving DecidableEq

/-- Transactions that run together on one chain. -/
structure Batch where
  chainSelector : UInt64
  transactions : List Transaction
  deriving DecidableEq

structure Proposal where
  version : String := "v1"
  description : String := ""
  action : Action := .schedule
  delaySeconds : UInt64 := 0
  operations : List Batch
  deriving DecidableEq

inductive ProposalError where
  | noOperations
  | emptyBatch (index : Nat) (chainSelector : UInt64)
  deriving DecidableEq

namespace ProposalError

def message : ProposalError → String
  | .noOperations => "Proposal contains no batch operations"
  | .emptyBatch i c =>
      "Batch operation " ++ Text.decimal i ++ " on chain " ++ Text.decimal c.toNat ++
        " contains no transactions"

end ProposalError

namespace Proposal

def firstEmptyBatch? (index : Nat) : List Batch → Option ProposalError
  | [] => none
  | b :: bs =>
      if b.transactions.isEmpty then some (.emptyBatch index b.chainSelector)
      else firstEmptyBatch? (index + 1) bs

def validate (p : Proposal) : Except ProposalError Unit :=
  if p.operations.isEmpty then .error .noOperations
  else match firstEmptyBatch? 0 p.operations with
    | some e => .error e
    | none => .ok ()

def chainSelectors (p : Proposal) : Selectors :=
  .ofList (p.operations.map Batch.chainSelector)

def transactionCount (p : Proposal) : Nat :=
  (p.operations.flatMap Batch.transactions).length

end Proposal

end Timelock
