import Timelock.Config.File
import Timelock.Text.Blank

/-!
# Resolving a configuration

The configuration comes from a file, or is the default one; variables of the surroundings then
override single values.
-/

namespace Timelock

/-- Where a configuration is looked for: variables and files by their names. -/
structure Surroundings where
  setting? : String → Option String
  contents? : String → Option ByteArray

namespace Surroundings

def configVariable : String := "PROPOSAL_ANALYZER_CONFIG"

def timeoutVariable : String := "PROPOSAL_ANALYZER_TIMEOUT_MS"

def concurrencyVariable : String := "PROPOSAL_ANALYZER_MAX_CONCURRENCY"

def logVariable : String := "PROPOSAL_ANALYZER_LOG"

end Surroundings

def digitsValue? (cs : List Char) : Option Nat :=
  if cs.isEmpty || !cs.all Char.isDigit then none
  else some (cs.foldl (fun n c ↦ 10 * n + (c.toNat - 48)) 0)

/-- A number of sixty-four bits in decimal digits, with at most one plus sign before them. -/
def wordOfText? (s : String) : Option UInt64 :=
  let cs := match Text.trimChars s.toList with
    | '+' :: rest => rest
    | cs => cs
  match digitsValue? cs with
  | some n => if n < UInt64.size then some (UInt64.ofNat n) else none
  | none => none

namespace Config

open Surroundings

def load (x : Surroundings) (path : String) : Except ConfigError Config :=
  match x.contents? path with
  | none => .error .missingFile
  | some bytes =>
      match String.fromUTF8? bytes with
      | none => .error .undecodableFile
      | some s => ofText s

/-- The configuration before overriding: from the path given, or else from the path that a
variable names, or else the default. -/
def base (x : Surroundings) (path : Option String) : Except ConfigError Config :=
  match path with
  | some p => load x p
  | none =>
      match x.setting? configVariable with
      | some p => load x p
      | none => .ok {}

def override? (x : Surroundings) (name reason : String) : Except ConfigError (Option UInt64) :=
  match x.setting? name with
  | none => .ok none
  | some s =>
      match wordOfText? s with
      | some n => .ok (some n)
      | none => .error (.invalid ⟨name, s, reason⟩)

def overridden (x : Surroundings) (c : Config) : Except ConfigError Config := do
  let timeout ← override? x timeoutVariable "expected a whole number of milliseconds"
  let bound ← override? x concurrencyVariable "expected a positive integer"
  let c : Config := {
    analyzerTimeoutMs := timeout.getD c.analyzerTimeoutMs
    maxConcurrency := bound <|> c.maxConcurrency
    logLevel := (x.setting? logVariable).getD c.logLevel
    logFormat := c.logFormat }
  match c.validate with
  | .error e => .error (.invalid e)
  | .ok () => .ok c

def resolve (x : Surroundings) (path : Option String) : Except ConfigError Config := do
  let c ← base x path
  overridden x c

end Config

end Timelock
