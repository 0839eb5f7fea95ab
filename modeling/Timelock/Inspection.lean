import Timelock.DependencyStore
import Timelock.Environment
import Timelock.ExecutionContext
import Timelock.NodePath.Json
import Timelock.NodeScope

/-!
# Inspection

What an analyzer can see, as JSON: its scope, its dependency store, the environment and the
execution context.
-/

namespace Timelock

open Json

def stringOrNull (o : Option String) : Value :=
  match o with
  | some s => .string s
  | none => .null

def Selectors.toJson (s : Selectors) : Value := .array (s.toList.map .word)

namespace NodeScope

def toJson (s : NodeScope) : Value :=
  .object [
    ("text", .string s.text),
    ("path", s.path.toJson),
    ("level", .string s.level.name),
    ("chain_selector", match s.chainSelector with
      | some n => .word n
      | none => .null),
    ("call", stringOrNull s.callName),
    ("parameter", stringOrNull s.parameterName),
    ("contract", stringOrNull (s.call.map Call.contract))]

end NodeScope

structure StoreViews where
  level : Option Level := none
  path : Option NodePath := none
  analyzer : Option String := none
  kind : Option String := none
  deriving DecidableEq

namespace StoreViews

def names (as : List Annotation) : Value := .strings (as.map Annotation.name)

def toJson (v : StoreViews) (s : DependencyStore) : List (String × Value) :=
  (v.level.map (fun l ↦ ("at_level", names (s.atLevel l)))).toList ++
    (v.path.map (fun p ↦ ("at_path", names (s.atPath p)))).toList ++
    (v.analyzer.map (fun id ↦ ("from", names (s.fromAnalyzer id)))).toList ++
    (v.kind.map (fun k ↦
      ("filter_type", names (s.filter (fun e ↦ e.content.kind = k))))).toList

end StoreViews

namespace DependencyStore

def toJson (s : DependencyStore) (v : StoreViews) : Value :=
  .object ([
    ("dependencies", .strings s.dependencies),
    ("len", .nat s.size),
    ("empty", .bool s.isEmpty),
    ("entries", .array (s.entries.map ScopedAnnotation.toJson)),
    ("entry_levels", .strings (s.entries.map (fun e ↦ e.level.name))),
    ("union", StoreViews.names s.annotations)] ++ v.toJson s)

end DependencyStore

namespace Environment

def lookupJson (x : Environment) (key : String) : Value :=
  match x.metadata.get? key with
  | some v => .object [("some", v.value)]
  | none => .string "absent"

def toJson (x : Environment) (keys : List String) : Value :=
  .object [
    ("name", .string x.name),
    ("domain", .string x.domain),
    ("chain_selectors", x.chainSelectors.toJson),
    ("keys", .strings x.metadata.keys),
    ("values", .array (keys.map x.lookupJson))]

end Environment

namespace ExecutionContext

/-- The run at a glance: names, chains, description, and how much there is to analyze. -/
def overviewJson (x : ExecutionContext) : Value :=
  .array [
    .string x.domain,
    .string x.environmentName,
    x.chainSelectors.toJson,
    .string x.proposal.description,
    .nat x.decoded.callCount,
    .nat x.decoded.parameterCount]

end ExecutionContext

end Timelock
