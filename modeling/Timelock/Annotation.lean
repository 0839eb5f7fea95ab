import Timelock.Json.Free

/-!
# Annotations

Named and typed values that analyzers leave on the nodes of a proposal, and a few with
well-known names.
-/

namespace Timelock

inductive Severity where
  | error
  | warning
  | info
  | debug
  deriving DecidableEq

namespace Severity

def name : Severity → String
  | .error => "error"
  | .warning => "warning"
  | .info => "info"
  | .debug => "debug"

def all : List Severity := [.error, .warning, .info, .debug]

def named : List (String × Severity) := all.map (fun s ↦ (s.name, s))

def rank : Severity → Nat
  | .error => 0
  | .warning => 1
  | .info => 2
  | .debug => 3

end Severity

inductive Risk where
  | high
  | medium
  | low
  deriving DecidableEq

namespace Risk

def name : Risk → String
  | .high => "high"
  | .medium => "medium"
  | .low => "low"

def all : List Risk := [.high, .medium, .low]

def named : List (String × Risk) := all.map (fun r ↦ (r.name, r))

def rank : Risk → Nat
  | .high => 0
  | .medium => 1
  | .low => 2

end Risk

structure Annotation where
  name : String
  kind : String
  value : Json.FreeValue
  analyzer : Option String := none
  deriving DecidableEq

namespace Annotation

def severity (s : Severity) : Annotation :=
  { name := "cld.severity", kind := "enum", value := .string s.name }

def risk (r : Risk) : Annotation :=
  { name := "cld.risk", kind := "enum", value := .string r.name }

def diff (old new : Json.FreeValue) (valueType : String) : Annotation :=
  { name := "cld.diff", kind := "diff",
    value := .ofMembers [("old", old), ("new", new), ("valueType", .string valueType)] }

def valueType (t : String) : Annotation :=
  { name := "cld.value_type", kind := "string", value := .string t }

/-- The same annotation, attributed to the given analyzer whatever it said before. -/
def producedBy (a : Annotation) (analyzer : String) : Annotation :=
  { a with analyzer := some analyzer }

def withName (as : List Annotation) (name : String) : List Annotation :=
  as.filter (fun a ↦ a.name = name)

def withKind (as : List Annotation) (kind : String) : List Annotation :=
  as.filter (fun a ↦ a.kind = kind)

def fromAnalyzer (as : List Annotation) (analyzer : String) : List Annotation :=
  as.filter (fun a ↦ a.analyzer = some analyzer)

def firstNamed? (as : List Annotation) (name : String) : Option Annotation :=
  as.find? (fun a ↦ a.name = name)

end Annotation

end Timelock
