/-!
# Hexadecimal bytes

Bytes are written as `0x` and two lower-case digits each.  They are read from digits of
either case, with or without one leading `0x`.
-/

namespace Timelock

inductive HexError where
  | oddLength
  /-- The first byte of the text that is no digit, and where it stands after the `0x`. -/
  | notADigit (byte : UInt8) (position : Nat)
  deriving DecidableEq

namespace Hex

def digitChar (n : Nat) : Char :=
  if n < 10 then Char.ofNat (48 + n) else Char.ofNat (87 + n)

def digitValue? (c : Char) : Option Nat :=
  if '0' ≤ c ∧ c ≤ '9' then some (c.toNat - 48)
  else if 'a' ≤ c ∧ c ≤ 'f' then some (c.toNat - 87)
  else if 'A' ≤ c ∧ c ≤ 'F' then some (c.toNat - 55)
  else none

def encodeByte (b : UInt8) : List Char :=
  [digitChar (b.toNat / 16), digitChar (b.toNat % 16)]

def encodeChars (bytes : List UInt8) : List Char :=
  '0' :: 'x' :: bytes.flatMap encodeByte

def encode (bytes : List UInt8) : String :=
  String.ofList (encodeChars bytes)

def stripMark : List Char → List Char
  | '0' :: 'x' :: cs => cs
  | cs => cs

def byteLength (cs : List Char) : Nat :=
  (cs.flatMap String.utf8EncodeChar).length

/-- Pairs of digits as bytes; the position counts the bytes of text before the list. -/
def decodePairs (position : Nat) : List Char → Except HexError (List UInt8)
  | [] => .ok []
  | c :: cs =>
      match digitValue? c with
      | none => .error (.notADigit ((String.utf8EncodeChar c).headD 0) position)
      | some hi =>
          match cs with
          | [] => .error .oddLength
          | d :: ds =>
              match digitValue? d with
              | none => .error (.notADigit ((String.utf8EncodeChar d).headD 0) (position + 1))
              | some lo => do
                  let bytes ← decodePairs (position + 2) ds
                  return UInt8.ofNat (16 * hi + lo) :: bytes

/-- An odd number of bytes is reported before a byte that is no digit. -/
def decodeChars (cs : List Char) : Except HexError (List UInt8) :=
  let digits := stripMark cs
  if byteLength digits % 2 = 1 then .error .oddLength
  else decodePairs 0 digits

def decode (s : String) : Except HexError (List UInt8) :=
  decodeChars s.toList

end Hex

end Timelock
