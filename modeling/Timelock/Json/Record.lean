import Timelock.Json.Decoding

/-!
# Records in JSON

A record is read from an object with the fields in any order, or from an array of the fields
in order of declaration.  Members with other names are skipped.  A field with a default may be
left out of an object, and at the end of an array.
-/

namespace Timelock.Json

structure Shape (α : Type) where
  title : String
  size : Nat
  Field : Fin size → Type
  name : Fin size → String
  decoder : (i : Fin size) → Decoder (Field i)
  default : (i : Fin size) → Option (Field i)
  build : ((i : Fin size) → Field i) → α

namespace Shape

variable {α : Type}

abbrev Slots (s : Shape α) := (i : Fin s.size) → Option (s.Field i)

def noSlots (s : Shape α) : s.Slots := fun _ ↦ none

def fill (s : Shape α) (slots : s.Slots) (i : Fin s.size) (v : s.Field i) : s.Slots := fun j ↦
  if h : i = j then some (h ▸ v) else slots j

def indexOf? (s : Shape α) (name : String) : Option (Fin s.size) :=
  (List.finRange s.size).find? (fun i ↦ s.name i == name)

/-- Collect a dependent family, reporting the first error in order. -/
def collect {ε : Type} : (n : Nat) → (Field : Fin n → Type) →
    ((i : Fin n) → Except ε (Field i)) → Except ε ((i : Fin n) → Field i)
  | 0, _, _ => .ok fun i ↦ i.elim0
  | n + 1, Field, f => do
      let a ← f 0
      let rest ← collect n (fun i ↦ Field i.succ) (fun i ↦ f i.succ)
      return fun i ↦ Fin.cases (motive := Field) a rest i

def complete (s : Shape α) (slots : s.Slots) (missing : Fin s.size → Mismatch) :
    Except Problem α := do
  let fields ← collect s.size s.Field fun i ↦
    match slots i, s.default i with
    | some v, _ => .ok v
    | none, some v => .ok v
    | none, none => .error (.mismatch (missing i))
  return s.build fields

def members (s : Shape α) (budget : Nat) : s.Slots → List (Key × Node) → Except Problem s.Slots
  | slots, [] => .ok slots
  | slots, (k, n) :: ms => do
      let name ← k.text
      match s.indexOf? name with
      | none =>
          n.skip
          members s budget slots ms
      | some i =>
          if (slots i).isSome then .error (.mismatch (.duplicateField name))
          else
            let v ← s.decoder i budget n
            members s budget (s.fill slots i v) ms

/-- Read array items into the slots in order; what is left over is returned. -/
def items (s : Shape α) (budget : Nat) :
    s.Slots → List (Fin s.size) → List Node → Except Problem (s.Slots × List Node)
  | slots, i :: is, n :: ns => do
      let v ← s.decoder i budget n
      items s budget (s.fill slots i v) is ns
  | slots, _, ns => .ok (slots, ns)

def expected (s : Shape α) : String :=
  s.title ++ " with " ++ Text.decimal s.size ++ (if s.size = 1 then " element" else " elements")

def decode (s : Shape α) : Decoder α := fun budget n ↦
  match n with
  | .object ms e => do
      let b ← enter budget
      let slots ← s.members b s.noSlots ms
      e.check
      s.complete slots (fun i ↦ .missingField (s.name i))
  | .array ns e => do
      let b ← enter budget
      let (slots, surplus) ← s.items b s.noSlots (List.finRange s.size) ns
      match surplus with
      | _ :: _ => malformed
      | [] =>
          e.check
          s.complete slots (fun i ↦ .wrongLength i s.expected)
  | n => n.mismatched s.title

end Shape

end Timelock.Json
