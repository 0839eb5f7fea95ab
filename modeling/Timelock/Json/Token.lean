import Timelock.Json.Value

/-!
# JSON tokens

The tokens of a text, found by an automaton that takes one character at a time.  A text
may go wrong inside a token; the last token then records how, once for a reader that wants
the token's value and once for a reader that only skips it.  A skipped string may hold
unpaired surrogate escapes, and a skipped number may lie outside the doubles.
-/

namespace Timelock.Json

/-- Two ways in which a text can fail to be JSON: it ends too early, or it goes wrong. -/
inductive Fault where
  | unfinished
  | malformed
  deriving DecidableEq

inductive Token where
  | openArray
  | closeArray
  | openObject
  | closeObject
  | comma
  | colon
  | null
  | bool (value : Bool)
  /-- A well-formed number, `none` when it is too large. -/
  | number (value : Option Number)
  /-- A terminated string, `none` when it has an unpaired surrogate escape. -/
  | string (value : Option String)
  | brokenString (reading skipping : Fault)
  | brokenScalar (reading skipping : Fault)
  deriving DecidableEq

namespace Token

/-- The digits of a number as they are read, each list with the last digit first. -/
structure Digits where
  negative : Bool
  whole : List Nat
  fraction : Option (List Nat)
  exponent : Option (Bool × List Nat)

namespace Digits

def wordBound : Nat := 0x10000000000000000

/-- Take digits into a significand below `2 ^ 64`, and count those left over from the first
one that does not fit. -/
def accumulate : Nat → List Nat → Nat × Nat
  | n, [] => (n, 0)
  | n, d :: ds =>
      if n * 10 + d < wordBound then accumulate (n * 10 + d) ds
      else (n, ds.length + 1)

/-- The exponent of a number, as far as it can matter: `none` past `2 ^ 31`. -/
def exponentValue : Nat → List Nat → Option Nat
  | n, [] => some n
  | n, d :: ds => if n * 10 + d < 0x80000000 then exponentValue (n * 10 + d) ds else none

/-- The number denoted.  Without fraction and exponent it is an integer when it fits sixty-four
bits, except for `-0`.  Otherwise the significand keeps as many leading digits as fit, and the
digits of the whole part that do not fit scale it by ten each. -/
def value (ds : Digits) : Option Number :=
  let (w, left) := accumulate 0 ds.whole.reverse
  match ds.fraction, ds.exponent, left with
  | none, none, 0 =>
      if ds.negative then
        if h : 0 < w ∧ w ≤ 0x8000000000000000 then some (.integer (-w) ⟨by omega, by omega⟩)
        else (Binary64.ofRatio? true w 1).map .float
      else
        if h : w < 0x10000000000000000 then some (.integer w ⟨by omega, by omega⟩)
        else none
  | _, _, _ =>
      let fraction := (ds.fraction.getD []).reverse
      let (n, unused) := accumulate w fraction
      let base : Int := left - (fraction.length - unused : Nat)
      match ds.exponent with
      | none => (Binary64.ofDecimal? ds.negative n base).map .float
      | some (down, es) =>
          match exponentValue 0 es.reverse with
          | some e =>
              let e : Int := if down then -e else e
              (Binary64.ofDecimal? ds.negative n (base + e)).map .float
          | none =>
              if n = 0 ∨ down then some (.float (.zero ds.negative)) else none

end Digits

inductive NumberPart where
  | sign
  | zero
  | whole
  | point
  | fraction
  | exponentMark
  | exponentSign
  | exponent
  deriving DecidableEq

/-- A string as it is read: its characters with the last one first, a high surrogate that
waits for its partner, and whether all surrogates so far were paired. -/
structure Quotation where
  chars : List Char
  high : Option Nat
  sound : Bool

inductive Mode where
  | start
  | name (expected : List Char) (token : Token)
  | number (part : NumberPart) (digits : Digits)
  | quoted (q : Quotation)
  | escape (q : Quotation)
  /-- Inside `\uXXXX`: the value so far, the UTF-8 bytes taken, and whether all were hex digits. -/
  | unicode (q : Quotation) (value bytes : Nat) (hex : Bool)

def hexDigit? (c : Char) : Option Nat :=
  if '0' ≤ c ∧ c ≤ '9' then some (c.toNat - '0'.toNat)
  else if 'a' ≤ c ∧ c ≤ 'f' then some (c.toNat - 'a'.toNat + 10)
  else if 'A' ≤ c ∧ c ≤ 'F' then some (c.toNat - 'A'.toNat + 10)
  else none

def digit? (c : Char) : Option Nat :=
  if '0' ≤ c ∧ c ≤ '9' then some (c.toNat - '0'.toNat) else none

def isSpace (c : Char) : Bool :=
  c == ' ' || c == '\n' || c == '\t' || c == '\r'

namespace Quotation

def empty : Quotation := ⟨[], none, true⟩

def push (q : Quotation) (c : Char) : Quotation :=
  ⟨c :: q.chars, none, q.sound && q.high.isNone⟩

def pushUnit (q : Quotation) (n : Nat) : Quotation :=
  let low := 0xDC00 ≤ n && n ≤ 0xDFFF
  match q.high with
  | some h =>
      if low then
        ⟨Char.ofNat ((h - 0xD800) * 0x400 + (n - 0xDC00) + 0x10000) :: q.chars, none, q.sound⟩
      else ⟨q.chars, none, false⟩
  | none =>
      if low then ⟨q.chars, none, false⟩
      else if 0xD800 ≤ n && n ≤ 0xDBFF then ⟨q.chars, some n, q.sound⟩
      else ⟨Char.ofNat n :: q.chars, none, q.sound⟩

def token (q : Quotation) : Token :=
  .string (if q.sound && q.high.isNone then some (String.ofList q.chars.reverse) else none)

def cutOff (q : Quotation) : Token :=
  .brokenString (if q.sound then .unfinished else .malformed) .unfinished

end Quotation

def malformedScalar : Token := .brokenScalar .malformed .malformed

def malformedString : Token := .brokenString .malformed .malformed

def startStep (c : Char) : List Token × Option Mode :=
  if isSpace c then ([], some .start)
  else if c == '[' then ([.openArray], some .start)
  else if c == ']' then ([.closeArray], some .start)
  else if c == '{' then ([.openObject], some .start)
  else if c == '}' then ([.closeObject], some .start)
  else if c == ',' then ([.comma], some .start)
  else if c == ':' then ([.colon], some .start)
  else if c == 'n' then ([], some (.name ['u', 'l', 'l'] .null))
  else if c == 't' then ([], some (.name ['r', 'u', 'e'] (.bool true)))
  else if c == 'f' then ([], some (.name ['a', 'l', 's', 'e'] (.bool false)))
  else if c == '"' then ([], some (.quoted .empty))
  else if c == '-' then ([], some (.number .sign ⟨true, [], none, none⟩))
  else if c == '0' then ([], some (.number .zero ⟨false, [0], none, none⟩))
  else match digit? c with
    | some d => ([], some (.number .whole ⟨false, [d], none, none⟩))
    | none => ([malformedScalar], none)

def wholeStep (ds : Digits) (d : Nat) : Digits := ⟨ds.negative, d :: ds.whole, none, none⟩

def fractionStep (ds : Digits) (d : Nat) : Digits :=
  ⟨ds.negative, ds.whole, some (d :: ds.fraction.getD []), none⟩

def exponentStep (ds : Digits) (d : Nat) : Digits :=
  let (down, es) := ds.exponent.getD (false, [])
  ⟨ds.negative, ds.whole, ds.fraction, some (down, d :: es)⟩

def signStep (ds : Digits) (down : Bool) : Digits :=
  ⟨ds.negative, ds.whole, ds.fraction, some (down, [])⟩

def numberStep (part : NumberPart) (ds : Digits) (c : Char) : List Token × Option Mode :=
  let close := let (ts, m) := startStep c; (Token.number ds.value :: ts, m)
  let wrong := ([malformedScalar], none)
  let go := fun part ds ↦ ([], some (Mode.number part ds))
  let mark := c == 'e' || c == 'E'
  match part, digit? c with
  | .sign, some d => go (if d = 0 then .zero else .whole) (wholeStep ds d)
  | .sign, none => wrong
  | .zero, some _ => wrong
  | .zero, none | .whole, none =>
      if c == '.' then go .point ds else if mark then go .exponentMark ds else close
  | .whole, some d => go .whole (wholeStep ds d)
  | .point, some d => go .fraction (fractionStep ds d)
  | .point, none => wrong
  | .fraction, some d => go .fraction (fractionStep ds d)
  | .fraction, none => if mark then go .exponentMark ds else close
  | .exponentMark, some d => go .exponent (exponentStep ds d)
  | .exponentMark, none =>
      if c == '+' then go .exponentSign (signStep ds false)
      else if c == '-' then go .exponentSign (signStep ds true)
      else wrong
  | .exponentSign, some d => go .exponent (exponentStep ds d)
  | .exponentSign, none => wrong
  | .exponent, some d => go .exponent (exponentStep ds d)
  | .exponent, none => close

def quotedStep (q : Quotation) (c : Char) : List Token × Option Mode :=
  if c == '"' then ([q.token], some .start)
  else if c == '\\' then ([], some (.escape q))
  else if c.toNat < 0x20 then ([malformedString], none)
  else ([], some (.quoted (q.push c)))

def escaped? (c : Char) : Option Char :=
  if c == '"' || c == '\\' || c == '/' then some c
  else if c == 'b' then some '\x08'
  else if c == 'f' then some '\x0c'
  else if c == 'n' then some '\n'
  else if c == 'r' then some '\r'
  else if c == 't' then some '\t'
  else none

def escapeStep (q : Quotation) (c : Char) : List Token × Option Mode :=
  if c == 'u' then ([], some (.unicode q 0 0 true))
  else match escaped? c with
    | some e => ([], some (.quoted (q.push e)))
    | none => ([malformedString], none)

/-- An escape `\uXXXX` takes four bytes of the text, whatever characters they belong to. -/
def unicodeStep (q : Quotation) (value bytes : Nat) (hex : Bool) (c : Char) :
    List Token × Option Mode :=
  let (value, hex) := match hexDigit? c with
    | some d => (value * 16 + d, hex)
    | none => (value, false)
  let bytes := bytes + c.utf8Size
  if bytes < 4 then ([], some (.unicode q value bytes hex))
  else if hex then ([], some (.quoted (q.pushUnit value)))
  else ([malformedString], none)

def nameStep (expected : List Char) (token : Token) (c : Char) : List Token × Option Mode :=
  match expected with
  | [] => let (ts, m) := startStep c; (token :: ts, m)
  | [e] => if c == e then ([token], some .start) else ([malformedScalar], none)
  | e :: es => if c == e then ([], some (.name es token)) else ([malformedScalar], none)

def step : Mode → Char → List Token × Option Mode
  | .start, c => startStep c
  | .name expected token, c => nameStep expected token c
  | .number part ds, c => numberStep part ds c
  | .quoted q, c => quotedStep q c
  | .escape q, c => escapeStep q c
  | .unicode q value bytes hex, c => unicodeStep q value bytes hex c

/-- The token that the end of the text completes or cuts off.  A number that stops where a
digit must follow counts as malformed to a reader that skips it. -/
def finish : Mode → List Token
  | .start => []
  | .name _ _ => [.brokenScalar .unfinished .unfinished]
  | .number part ds =>
      match part with
      | .zero | .whole | .fraction | .exponent => [.number ds.value]
      | .sign | .point | .exponentMark | .exponentSign => [.brokenScalar .unfinished .malformed]
  | .quoted q | .escape q | .unicode q _ _ _ => [q.cutOff]

def scanFrom : Mode → List Char → List Token
  | m, [] => finish m
  | m, c :: cs =>
      let (ts, next) := step m c
      match next with
      | some m => ts ++ scanFrom m cs
      | none => ts

def scan (cs : List Char) : List Token := scanFrom .start cs

def hexChar (n : Nat) : Char :=
  if n < 10 then Char.ofNat ('0'.toNat + n) else Char.ofNat ('a'.toNat + (n - 10))

def escapeChar (c : Char) : List Char :=
  if c == '"' then ['\\', '"']
  else if c == '\\' then ['\\', '\\']
  else if c == '\x08' then ['\\', 'b']
  else if c == '\x0c' then ['\\', 'f']
  else if c == '\n' then ['\\', 'n']
  else if c == '\r' then ['\\', 'r']
  else if c == '\t' then ['\\', 't']
  else if c.toNat < 0x20 then
    ['\\', 'u', '0', '0', hexChar (c.toNat / 16), hexChar (c.toNat % 16)]
  else [c]

def quote (s : String) : List Char :=
  '"' :: (s.toList.flatMap escapeChar ++ ['"'])

def spell : Token → List Char
  | .openArray => ['[']
  | .closeArray => [']']
  | .openObject => ['{']
  | .closeObject => ['}']
  | .comma => [',']
  | .colon => [':']
  | .null => ['n', 'u', 'l', 'l']
  | .bool true => ['t', 'r', 'u', 'e']
  | .bool false => ['f', 'a', 'l', 's', 'e']
  | .number n => (n.map Number.text).getD []
  | .string s => (s.map quote).getD []
  | .brokenString _ _ | .brokenScalar _ _ => []

end Token

end Timelock.Json
