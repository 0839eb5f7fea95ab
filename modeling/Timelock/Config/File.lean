import Timelock.Config
import Timelock.Toml.Document

/-!
# Configuration files

A configuration is read from the top-level table of a TOML document.  What is left out has its
default, and other keys are ignored.
-/

namespace Timelock

namespace Toml.Item

def text? : Item → Option String
  | .string s => some s
  | _ => none

def word? : Item → Option UInt64
  | .integer i => if 0 ≤ i then some (UInt64.ofNat i.toNat) else none
  | _ => none

def isEmpty : Item → Bool
  | .array items => items.isEmpty
  | .table _ entries => entries.isEmpty
  | .string _ | .integer _ | .boolean _ | .float | .dateTime | .tables _ => false

end Toml.Item

inductive ConfigError where
  | missingFile
  | undecodableFile
  | malformed
  | invalid (error : InvalidValue)
  deriving DecidableEq

namespace Config

open Toml

/-- A format is named by a string, or as the only key of a table. -/
def logFormat? : Item → Option LogFormat
  | .string s => LogFormat.named.lookup s
  | .table _ [(k, v)] => if v.isEmpty then LogFormat.named.lookup k else none
  | _ => none

def field? {α : Type} (es : Entries) (key : String) (read : Item → Option α) (default : α) :
    Option α :=
  match es.lookup key with
  | none => some default
  | some v => read v

def ofEntries? (es : Entries) : Option Config := do
  let standard : Config := {}
  return {
    analyzerTimeoutMs :=
      ← field? es "analyzer_timeout_ms" Item.word? standard.analyzerTimeoutMs
    maxConcurrency :=
      ← field? es "max_concurrency" (fun v ↦ v.word?.map some) standard.maxConcurrency
    logLevel := ← field? es "log_level" Item.text? standard.logLevel
    logFormat := ← field? es "log_format" logFormat? standard.logFormat }

def ofText (s : String) : Except ConfigError Config :=
  match (Toml.ofText? s).bind ofEntries? with
  | none => .error .malformed
  | some c =>
      match c.validate with
      | .error e => .error (.invalid e)
      | .ok () => .ok c

end Config

end Timelock
