import Timelock.Json.Free
import Timelock.Json.Node
import Timelock.Text.Hex
import Timelock.Text.Quoted

/-!
# Reading typed data from JSON

A decoder walks the tree of a text and stops at the first problem in the order of the text.
It may open a limited number of containers inside one another; a part of the text that no
decoder asks for is skipped without that limit.
-/

namespace Timelock.Json

/-- What stands in a text in place of what was expected. -/
inductive Found where
  | unit
  | boolean (value : Bool)
  | integer (value : Int)
  | float (value : Binary64)
  | string (value : String)
  | sequence
  | map
  deriving DecidableEq

namespace Found

def ticked (s : String) : String := "\x60" ++ s ++ "\x60"

def text : Found → String
  | .unit => "null"
  | .boolean b => "boolean " ++ ticked (if b then "true" else "false")
  | .integer i => "integer " ++ ticked (String.ofList (Number.intText i))
  | .float x => "floating point " ++ ticked (String.ofList x.text)
  | .string s => "string " ++ Text.quoted s
  | .sequence => "sequence"
  | .map => "map"

end Found

/-- Why well-formed JSON is not the data that was expected. -/
inductive Mismatch where
  | wrongType (found : Found) (expected : String)
  | wrongValue (found : Found) (expected : String)
  | wrongLength (present : Nat) (expected : String)
  | missingField (name : String)
  | duplicateField (name : String)
  | unknownVariant (found : String) (known : List String)
  | badHex (error : HexError)
  deriving DecidableEq

end Timelock.Json

namespace Timelock.HexError

def message : HexError → String
  | .oddLength => "Odd number of digits"
  | .notADigit b p =>
      "Invalid character " ++ Text.quotedChar (Char.ofNat b.toNat) ++ " at position " ++
        Text.decimal p

end Timelock.HexError

namespace Timelock.Json

namespace Mismatch

def message : Mismatch → String
  | .wrongType f e => "invalid type: " ++ f.text ++ ", expected " ++ e
  | .wrongValue f e => "invalid value: " ++ f.text ++ ", expected " ++ e
  | .wrongLength n e => "invalid length " ++ Text.decimal n ++ ", expected " ++ e
  | .missingField n => "missing field " ++ Found.ticked n
  | .duplicateField n => "duplicate field " ++ Found.ticked n
  | .unknownVariant f ks => "unknown variant " ++ Found.ticked f ++ ", expected " ++ Text.choice ks
  | .badHex e => e.message

end Mismatch

inductive Problem where
  | fault (f : Fault)
  | mismatch (m : Mismatch)
  deriving DecidableEq

/-- A reader of trees, given how many containers may still be opened. -/
abbrev Decoder (α : Type) := Nat → Node → Except Problem α

def malformed {α : Type} : Except Problem α := .error (.fault .malformed)

namespace Ending

def check : Ending → Except Problem Unit
  | .closed => .ok ()
  | .cut f | .cutAfterComma f => .error (.fault f)
  | .misnamed _ => malformed

end Ending

namespace Node

mutual

def skip : Node → Except Problem Unit
  | .null | .bool _ | .number _ | .string _ => .ok ()
  | .array ns e => do skipItems ns; e.check
  | .object ms e => do skipMembers ms; e.check
  | .absent f => .error (.fault f)
  | .broken _ _ f => .error (.fault f)

def skipItems : List Node → Except Problem Unit
  | [] => .ok ()
  | n :: ns => do n.skip; skipItems ns

def skipMembers : List (Key × Node) → Except Problem Unit
  | [] => .ok ()
  | (.broken _ f, _) :: _ => .error (.fault f)
  | (_, n) :: ms => do n.skip; skipMembers ms

end

/-- What a node holds, for a decoder that expects something else. -/
def found : Node → Except Problem Found
  | .null => .ok .unit
  | .bool b => .ok (.boolean b)
  | .number (some (.integer i _)) => .ok (.integer i)
  | .number (some (.float x)) => .ok (.float x)
  | .string (some s) => .ok (.string s)
  | .number none | .string none => malformed
  | .array _ _ => .ok .sequence
  | .object _ _ => .ok .map
  | .absent f => .error (.fault f)
  | .broken _ f _ => .error (.fault f)

def mismatched {α : Type} (expected : String) (n : Node) : Except Problem α := do
  let f ← n.found
  .error (.mismatch (.wrongType f expected))

end Node

def enter (budget : Nat) : Except Problem Nat :=
  match budget with
  | 0 => malformed
  | b + 1 => .ok b

namespace Key

def text : Key → Except Problem String
  | .name s => .ok s
  | .unpaired => malformed
  | .broken f _ => .error (.fault f)

end Key

mutual

def decodeFree (budget : Nat) : Node → Except Problem FreeValue
  | .null => .ok .null
  | .bool b => .ok (.bool b)
  | .number (some n) => .ok (.number n)
  | .string (some s) => .ok (.string s)
  | .number none | .string none => malformed
  | .array ns e => do
      let b ← enter budget
      let vs ← decodeFreeItems b ns
      e.check
      return .array vs
  | .object ms e => do
      let b ← enter budget
      let vs ← decodeFreeMembers b ms
      e.check
      return .ofMembers vs
  | .absent f => .error (.fault f)
  | .broken _ f _ => .error (.fault f)

def decodeFreeItems (budget : Nat) : List Node → Except Problem (List FreeValue)
  | [] => .ok []
  | n :: ns => do
      let v ← decodeFree budget n
      let vs ← decodeFreeItems budget ns
      return v :: vs

def decodeFreeMembers (budget : Nat) :
    List (Key × Node) → Except Problem (List (String × FreeValue))
  | [] => .ok []
  | (k, n) :: ms => do
      let s ← k.text
      let v ← decodeFree budget n
      let vs ← decodeFreeMembers budget ms
      return (s, v) :: vs

end

namespace Decoder

variable {α : Type}

def free : Decoder FreeValue := decodeFree

def string : Decoder String := fun _ n ↦
  match n with
  | .string (some s) => .ok s
  | n => n.mismatched "a string"

def word : Decoder UInt64 := fun _ n ↦
  match n with
  | .number (some (.integer i _)) =>
      if i < 0 then .error (.mismatch (.wrongValue (.integer i) "u64"))
      else .ok (UInt64.ofNat i.toNat)
  | n => n.mismatched "u64"

def unit : Decoder Unit := fun _ n ↦
  match n with
  | .null => .ok ()
  | n => n.mismatched "unit"

def hex : Decoder (List UInt8) := fun budget n ↦ do
  let s ← string budget n
  match Hex.decode s with
  | .ok bytes => return bytes
  | .error e => .error (.mismatch (.badHex e))

def items (d : Decoder α) (budget : Nat) : List Node → Except Problem (List α)
  | [] => .ok []
  | n :: ns => do
      let a ← d budget n
      let as ← items d budget ns
      return a :: as

def list (d : Decoder α) : Decoder (List α) := fun budget n ↦
  match n with
  | .array ns e => do
      let b ← enter budget
      let as ← items d b ns
      e.check
      return as
  | n => n.mismatched "a sequence"

def option (d : Decoder α) : Decoder (Option α) := fun budget n ↦
  match n with
  | .null => .ok none
  | n => do return some (← d budget n)

def named (known : List (String × α)) (s : String) : Except Problem α :=
  match known.lookup s with
  | some a => .ok a
  | none => .error (.mismatch (.unknownVariant s (known.map Prod.fst)))

/-- A named value: its name, or an object with the name over null. -/
def choice (known : List (String × α)) : Decoder α := fun budget n ↦
  match n with
  | .string (some s) => named known s
  | .object ms e => do
      let b ← enter budget
      match ms, e with
      | [], .closed => malformed
      | [], .misnamed n => n.mismatched "variant identifier"
      | [], .cut f => .error (.fault f)
      | [], .cutAfterComma f => .error (.fault f)
      | (k, n) :: more, e => do
          let a ← named known (← k.text)
          unit b n
          match more, e with
          | [], .closed => return a
          | [], .cut f => .error (.fault f)
          | _, _ => malformed
  | .absent f => .error (.fault f)
  | .broken true f _ => .error (.fault f)
  | _ => malformed

/-- The number of containers inside one another that a text may open. -/
def nesting : Nat := 127

def document (d : Decoder α) (doc : Document) : Except Problem α := do
  let a ← d nesting doc.root
  if doc.followed then malformed else return a

def text (d : Decoder α) (s : String) : Except Problem α :=
  d.document (.ofText s)

end Decoder

end Timelock.Json
