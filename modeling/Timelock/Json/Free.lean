import Timelock.Json.Printer
import Timelock.OrderedSet

/-!
# Free values

JSON data without a fixed shape.  An object is a table: its names are distinct and stand in
ascending order, so two values with the same content are equal.
-/

namespace Timelock.Json

/-- Every object in the value has distinct names in ascending order. -/
inductive Value.Canonical : Value → Prop
  | null : Canonical .null
  | bool (b : Bool) : Canonical (.bool b)
  | number (n : Number) : Canonical (.number n)
  | string (s : String) : Canonical (.string s)
  | array {vs : List Value} (items : ∀ v ∈ vs, Canonical v) : Canonical (.array vs)
  | object {ms : List (String × Value)} (members : ∀ m ∈ ms, Canonical m.2)
      (ascending : ms.Pairwise (fun a b ↦ a.1 < b.1)) : Canonical (.object ms)

structure FreeValue where
  value : Value
  canonical : value.Canonical

namespace FreeValue

instance : DecidableEq FreeValue := fun v w ↦
  if h : v.value = w.value then
    isTrue (by cases v; cases w; cases h; rfl)
  else
    isFalse fun e ↦ h (congrArg value e)

def null : FreeValue := ⟨.null, .null⟩

instance : Inhabited FreeValue := ⟨null⟩

def bool (b : Bool) : FreeValue := ⟨.bool b, .bool b⟩

def number (n : Number) : FreeValue := ⟨.number n, .number n⟩

def string (s : String) : FreeValue := ⟨.string s, .string s⟩

def nat (n : Nat) : FreeValue := number (.ofInt n)

def array (vs : List FreeValue) : FreeValue :=
  ⟨.array (vs.map value), .array fun v hv ↦ by
    obtain ⟨w, _, rfl⟩ := List.mem_map.mp hv
    exact w.canonical⟩

def object (t : Table FreeValue) : FreeValue :=
  ⟨.object (t.entries.map (fun e ↦ (e.1, e.2.value))), .object
    (fun m hm ↦ by
      obtain ⟨e, _, rfl⟩ := List.mem_map.mp hm
      exact e.2.canonical)
    (List.pairwise_map.mpr (t.ascending.imp (fun h ↦ h)))⟩

/-- An object from members in any order; of several under one name the last one stays. -/
def ofMembers (ms : List (String × FreeValue)) : FreeValue :=
  object (Table.ofList ms)

mutual

def ofValue : Value → FreeValue
  | .null => null
  | .bool b => bool b
  | .number n => number n
  | .string s => string s
  | .array vs => array (ofItems vs)
  | .object ms => ofMembers (ofValueMembers ms)

def ofItems : List Value → List FreeValue
  | [] => []
  | v :: vs => ofValue v :: ofItems vs

def ofValueMembers : List (String × Value) → List (String × FreeValue)
  | [] => []
  | (k, v) :: ms => (k, ofValue v) :: ofValueMembers ms

end

def isNull (v : FreeValue) : Bool := v.value = .null

end FreeValue

end Timelock.Json
