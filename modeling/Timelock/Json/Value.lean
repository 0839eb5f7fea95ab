import Timelock.Number.Shortest

/-!
# JSON values

Values as they are printed: members of an object stand in the order given.  Numbers are
integers between `-2 ^ 63` and `2 ^ 64`, or doubles.
-/

namespace Timelock.Json

inductive Number where
  | integer (value : Int) (fits : -0x8000000000000000 ≤ value ∧ value < 0x10000000000000000)
  | float (value : Binary64)
  deriving DecidableEq

namespace Number

/-- An integer outside the range becomes the nearest double. -/
def ofInt (i : Int) : Number :=
  if h : -0x8000000000000000 ≤ i ∧ i < 0x10000000000000000 then .integer i h
  else .float ((Binary64.ofRatio? (i < 0) i.natAbs 1).getD (.zero false))

def ofWord (n : UInt64) : Number :=
  .integer n.toNat ⟨by omega, by have := n.toNat_lt; omega⟩

def intText (i : Int) : List Char :=
  if i < 0 then '-' :: Nat.toDigits 10 i.natAbs else Nat.toDigits 10 i.natAbs

def text : Number → List Char
  | .integer i _ => intText i
  | .float x => x.text

end Number

inductive Value where
  | null
  | bool (value : Bool)
  | number (value : Number)
  | string (value : String)
  | array (items : List Value)
  | object (members : List (String × Value))

namespace Value

instance : Inhabited Value := ⟨.null⟩

def int (i : Int) : Value := .number (.ofInt i)

def nat (n : Nat) : Value := .number (.ofInt n)

def word (n : UInt64) : Value := .number (.ofWord n)

def strings (ss : List String) : Value := .array (ss.map .string)

mutual

def decEq : (v w : Value) → Decidable (v = w)
  | .null, .null => isTrue rfl
  | .bool a, .bool b =>
      if h : a = b then isTrue (h ▸ rfl) else isFalse fun e ↦ by cases e; exact h rfl
  | .number a, .number b =>
      if h : a = b then isTrue (h ▸ rfl) else isFalse fun e ↦ by cases e; exact h rfl
  | .string a, .string b =>
      if h : a = b then isTrue (h ▸ rfl) else isFalse fun e ↦ by cases e; exact h rfl
  | .array a, .array b =>
      match decEqItems a b with
      | isTrue h => isTrue (h ▸ rfl)
      | isFalse h => isFalse fun e ↦ by cases e; exact h rfl
  | .object a, .object b =>
      match decEqMembers a b with
      | isTrue h => isTrue (h ▸ rfl)
      | isFalse h => isFalse fun e ↦ by cases e; exact h rfl
  | .null, .bool _ | .null, .number _ | .null, .string _ | .null, .array _ | .null, .object _
  | .bool _, .null | .bool _, .number _ | .bool _, .string _ | .bool _, .array _
  | .bool _, .object _ | .number _, .null | .number _, .bool _ | .number _, .string _
  | .number _, .array _ | .number _, .object _ | .string _, .null | .string _, .bool _
  | .string _, .number _ | .string _, .array _ | .string _, .object _ | .array _, .null
  | .array _, .bool _ | .array _, .number _ | .array _, .string _ | .array _, .object _
  | .object _, .null | .object _, .bool _ | .object _, .number _ | .object _, .string _
  | .object _, .array _ => isFalse nofun

def decEqItems : (vs ws : List Value) → Decidable (vs = ws)
  | [], [] => isTrue rfl
  | [], _ :: _ => isFalse nofun
  | _ :: _, [] => isFalse nofun
  | v :: vs, w :: ws =>
      match decEq v w, decEqItems vs ws with
      | isTrue h, isTrue hs => isTrue (h ▸ hs ▸ rfl)
      | isFalse h, _ => isFalse fun e ↦ by cases e; exact h rfl
      | _, isFalse h => isFalse fun e ↦ by cases e; exact h rfl

def decEqMembers : (vs ws : List (String × Value)) → Decidable (vs = ws)
  | [], [] => isTrue rfl
  | [], _ :: _ => isFalse nofun
  | _ :: _, [] => isFalse nofun
  | (k, v) :: vs, (l, w) :: ws =>
      if hk : k = l then
        match decEq v w, decEqMembers vs ws with
        | isTrue h, isTrue hs => isTrue (hk ▸ h ▸ hs ▸ rfl)
        | isFalse h, _ => isFalse fun e ↦ by cases e; exact h rfl
        | _, isFalse h => isFalse fun e ↦ by cases e; exact h rfl
      else isFalse fun e ↦ by cases e; exact hk rfl

end

instance : DecidableEq Value := decEq

end Value

end Timelock.Json
