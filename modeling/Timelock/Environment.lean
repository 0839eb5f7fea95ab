import Timelock.Json.Free
import Timelock.Text.Quoted

/-!
# Environments

The chains and the metadata that a run may read.  A directory of known chains gives out
environments for all of them, or for exactly the chains that are asked for.
-/

namespace Timelock

structure Environment where
  domain : String
  name : String
  chainSelectors : Selectors
  metadata : Table Json.FreeValue := .empty
  deriving DecidableEq

inductive EnvironmentError where
  | unknownChain (chainSelector : UInt64)
  | notFound (name : String)
  | load (reason : String)
  | other (reason : String)
  deriving DecidableEq

namespace EnvironmentError

def message : EnvironmentError → String
  | .unknownChain c =>
      "Chain " ++ Text.decimal c.toNat ++ " is not available in this environment"
  | .notFound n => "Environment '" ++ n ++ "' not found"
  | .load r => "Failed to load environment: " ++ r
  | .other r => r

end EnvironmentError

structure ChainDirectory where
  chainSelectors : Selectors
  metadata : Table Json.FreeValue := .empty
  deriving DecidableEq

namespace ChainDirectory

/-- An environment on the chains asked for, or on all of them.  Of several unknown chains the
smallest is reported. -/
def load (dir : ChainDirectory) (domain name : String) (restriction : Option Selectors) :
    Except EnvironmentError Environment :=
  match restriction with
  | none => .ok ⟨domain, name, dir.chainSelectors, dir.metadata⟩
  | some asked =>
      match asked.toList.find? (fun c ↦ !dir.chainSelectors.contains c) with
      | some c => .error (.unknownChain c)
      | none => .ok ⟨domain, name, asked, dir.metadata⟩

end ChainDirectory

end Timelock
