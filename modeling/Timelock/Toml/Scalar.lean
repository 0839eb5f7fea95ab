import Timelock.Number.Binary64
import Timelock.Toml.Item

/-!
# TOML scalars

Strings, numbers, dates and times, read from the front of a text.
-/

namespace Timelock.Toml

/-- Reads from the front of a text and leaves the rest. -/
abbrev Reader (α : Type) := List Char → Option (α × List Char)

def isSpace (c : Char) : Bool := c == ' ' || c == '\t'

def isPlain (c : Char) : Bool := c == '\t' || (' ' ≤ c && c ≠ '\x7f')

def isHexDigit (c : Char) : Bool :=
  c.isDigit || ('a' ≤ c && c ≤ 'f') || ('A' ≤ c && c ≤ 'F')

def hexValue (c : Char) : Nat :=
  if c.isDigit then c.toNat - 48 else if 'a' ≤ c then c.toNat - 87 else c.toNat - 55

def ofDigits (base : Nat) (cs : List Char) : Nat :=
  cs.foldl (fun n c ↦ base * n + hexValue c) 0

def codePoint? (cs : List Char) : Option Char :=
  let n := ofDigits 16 cs
  if cs.all isHexDigit && (n < 0xD800 || (0xE000 ≤ n && n < 0x110000)) then some (Char.ofNat n)
  else none

def escaped? : Char → Option Char
  | 'b' => some '\x08'
  | 't' => some '\t'
  | 'n' => some '\n'
  | 'f' => some '\x0c'
  | 'r' => some '\r'
  | '"' => some '"'
  | '\\' => some '\\'
  | _ => none

def cons (c : Char) : Option (List Char × List Char) → Option (List Char × List Char)
  | some (cs, rest) => some (c :: cs, rest)
  | none => none

def quotedBody : Reader (List Char)
  | [] => none
  | '"' :: rest => some ([], rest)
  | '\\' :: 'u' :: a :: b :: c :: d :: rest =>
      match codePoint? [a, b, c, d] with
      | some x => cons x (quotedBody rest)
      | none => none
  | '\\' :: 'U' :: a :: b :: c :: d :: e :: f :: g :: h :: rest =>
      match codePoint? [a, b, c, d, e, f, g, h] with
      | some x => cons x (quotedBody rest)
      | none => none
  | '\\' :: c :: rest =>
      match escaped? c with
      | some x => cons x (quotedBody rest)
      | none => none
  | c :: rest => if isPlain c && c ≠ '\\' then cons c (quotedBody rest) else none

def literalBody : Reader (List Char)
  | [] => none
  | c :: rest =>
      if c == '\x27' then some ([], rest)
      else if isPlain c then cons c (literalBody rest)
      else none

inductive Fold where
  | text
  | lineEnd
  | margin
  deriving DecidableEq

/-- The rest of a string over several lines in double quotes.  Of up to five quotes at the end
the last three close it. -/
def quotedLines : Fold → Reader (List Char)
  | _, [] => none
  | .lineEnd, '\r' :: '\n' :: rest => quotedLines .margin rest
  | .lineEnd, '\n' :: rest => quotedLines .margin rest
  | .lineEnd, c :: rest => if isSpace c then quotedLines .lineEnd rest else none
  | f, '\r' :: '\n' :: rest =>
      if f = .margin then quotedLines .margin rest else cons '\n' (quotedLines .text rest)
  | f, '\n' :: rest =>
      if f = .margin then quotedLines .margin rest else cons '\n' (quotedLines .text rest)
  | _, '"' :: '"' :: '"' :: '"' :: '"' :: rest => some (['"', '"'], rest)
  | _, '"' :: '"' :: '"' :: '"' :: rest => some (['"'], rest)
  | _, '"' :: '"' :: '"' :: rest => some ([], rest)
  | _, '\\' :: 'u' :: a :: b :: c :: d :: rest =>
      match codePoint? [a, b, c, d] with
      | some x => cons x (quotedLines .text rest)
      | none => none
  | _, '\\' :: 'U' :: a :: b :: c :: d :: e :: f :: g :: h :: rest =>
      match codePoint? [a, b, c, d, e, f, g, h] with
      | some x => cons x (quotedLines .text rest)
      | none => none
  | _, '\\' :: '\r' :: '\n' :: rest => quotedLines .margin rest
  | _, '\\' :: '\n' :: rest => quotedLines .margin rest
  | _, '\\' :: c :: rest =>
      if isSpace c then quotedLines .lineEnd rest
      else
        match escaped? c with
        | some x => cons x (quotedLines .text rest)
        | none => none
  | f, c :: rest =>
      if f = .margin && isSpace c then quotedLines .margin rest
      else if isPlain c && c ≠ '\\' then cons c (quotedLines .text rest)
      else none

def literalLines : Reader (List Char)
  | [] => none
  | '\r' :: '\n' :: rest => cons '\n' (literalLines rest)
  | '\x27' :: '\x27' :: '\x27' :: '\x27' :: '\x27' :: rest => some (['\x27', '\x27'], rest)
  | '\x27' :: '\x27' :: '\x27' :: '\x27' :: rest => some (['\x27'], rest)
  | '\x27' :: '\x27' :: '\x27' :: rest => some ([], rest)
  | c :: rest =>
      if c == '\n' || isPlain c then cons c (literalLines rest) else none

def dropNewline : List Char → List Char
  | '\r' :: '\n' :: rest => rest
  | '\n' :: rest => rest
  | cs => cs

def string : Reader String := fun cs ↦ do
  let (s, rest) ← match cs with
    | '"' :: '"' :: '"' :: rest => quotedLines .text (dropNewline rest)
    | '\x27' :: '\x27' :: '\x27' :: rest => literalLines (dropNewline rest)
    | '"' :: rest => quotedBody rest
    | '\x27' :: rest => literalBody rest
    | _ => none
  return (String.ofList s, rest)

/-- The digits after a first one; an underscore stands between two digits. -/
def moreDigits (isDigit : Char → Bool) : List Char → List Char × List Char
  | '_' :: c :: rest =>
      if isDigit c then
        let (ds, rest) := moreDigits isDigit rest
        (c :: ds, rest)
      else ([], '_' :: c :: rest)
  | c :: rest =>
      if isDigit c then
        let (ds, rest) := moreDigits isDigit rest
        (c :: ds, rest)
      else ([], c :: rest)
  | [] => ([], [])

def digits (isDigit : Char → Bool) : Reader (List Char)
  | c :: rest => if isDigit c then some ((moreDigits isDigit (c :: rest))) else none
  | [] => none

def sign : List Char → Bool × List Char
  | '+' :: rest => (false, rest)
  | '-' :: rest => (true, rest)
  | cs => (false, cs)

def wholeDigits : Reader (List Char)
  | '0' :: rest => some (['0'], rest)
  | cs => digits Char.isDigit cs

def signed (negative : Bool) (n : Nat) : Int := if negative then -n else n

def inRange? (i : Int) : Option Int :=
  if -0x8000000000000000 ≤ i ∧ i < 0x8000000000000000 then some i else none

def radixInteger (isDigit : Char → Bool) (base : Nat) : Reader Item := fun cs ↦ do
  let (ds, rest) ← digits isDigit cs
  return (.integer (← inRange? (ofDigits base ds)), rest)

def integer : Reader Item
  | '0' :: 'x' :: rest => radixInteger isHexDigit 16 rest
  | '0' :: 'o' :: rest => radixInteger (fun c ↦ '0' ≤ c && c ≤ '7') 8 rest
  | '0' :: 'b' :: rest => radixInteger (fun c ↦ c == '0' || c == '1') 2 rest
  | cs => do
      let (negative, cs) := sign cs
      let (ds, rest) ← wholeDigits cs
      return (.integer (← inRange? (signed negative (ofDigits 10 ds))), rest)

def fraction : Reader (List Char)
  | '.' :: rest => digits Char.isDigit rest
  | _ => none

def exponent : Reader Int
  | 'e' :: rest | 'E' :: rest => do
      let (negative, cs) := sign rest
      let (ds, rest) ← digits Char.isDigit cs
      return (signed negative (ofDigits 10 ds), rest)
  | _ => none

/-- A decimal number that rounds beyond the largest double. -/
def overflows (significand : Nat) (exponent : Int) : Bool :=
  let place : Int := (Nat.toDigits 10 significand).length + exponent
  if significand = 0 || place < 309 then false
  else if 310 < place then true
  else
    let num := significand * Nat.pow 10 exponent.toNat
    (Binary64.ofRatio? false num (Nat.pow 10 (-exponent).toNat)).isNone

/-- A number with a fraction or an exponent.  It may be too large only below zero. -/
def decimal : Reader Item := fun cs ↦ do
  let (negative, cs) := sign cs
  let (whole, cs) ← wholeDigits cs
  let (frac, e, rest) ← match fraction cs with
    | some (frac, cs) =>
        match exponent cs with
        | some (e, rest) => some (frac, e, rest)
        | none => some (frac, 0, cs)
    | none =>
        match exponent cs with
        | some (e, rest) => some ([], e, rest)
        | none => none
  if !negative && overflows (ofDigits 10 (whole ++ frac)) (e - frac.length) then none
  else some (.float, rest)

def specialFloat : Reader Item := fun cs ↦
  match (sign cs).2 with
  | 'i' :: 'n' :: 'f' :: rest | 'n' :: 'a' :: 'n' :: rest => some (.float, rest)
  | _ => none

def twoDigits (least greatest : Nat) : Reader Nat
  | a :: b :: rest =>
      let n := ofDigits 10 [a, b]
      if a.isDigit && b.isDigit && least ≤ n && n ≤ greatest then some (n, rest) else none
  | _ => none

def expect (c : Char) : Reader Unit
  | d :: rest => if c = d then some ((), rest) else none
  | [] => none

def isLeapYear (y : Nat) : Bool := y % 4 = 0 && (y % 100 ≠ 0 || y % 400 = 0)

def daysIn (year month : Nat) : Nat :=
  if month = 2 then (if isLeapYear year then 29 else 28)
  else if month = 4 ∨ month = 6 ∨ month = 9 ∨ month = 11 then 30
  else 31

def date : Reader Unit := fun cs ↦ do
  let (century, cs) ← twoDigits 0 99 cs
  let (year, cs) ← twoDigits 0 99 cs
  let (_, cs) ← expect '-' cs
  let (month, cs) ← twoDigits 1 12 cs
  let (_, cs) ← expect '-' cs
  let (_, rest) ← twoDigits 1 (daysIn (100 * century + year) month) cs
  return ((), rest)

/-- Hours, minutes and seconds, a leap second included, with any fraction of a second. -/
def time : Reader Unit := fun cs ↦ do
  let (_, cs) ← twoDigits 0 23 cs
  let (_, cs) ← expect ':' cs
  let (_, cs) ← twoDigits 0 59 cs
  let (_, cs) ← expect ':' cs
  let (_, cs) ← twoDigits 0 60 cs
  match cs with
  | '.' :: c :: rest =>
      if c.isDigit then some ((), rest.dropWhile Char.isDigit) else some ((), cs)
  | cs => some ((), cs)

def offset : List Char → Option (List Char)
  | 'Z' :: rest | 'z' :: rest => some rest
  | '+' :: cs | '-' :: cs => do
      let (_, cs) ← twoDigits 0 23 cs
      let (_, cs) ← expect ':' cs
      let (_, rest) ← twoDigits 0 59 cs
      return rest
  | _ => none

def timeOfDay : List Char → Option (List Char)
  | 'T' :: cs | 't' :: cs | ' ' :: cs => do
      let (_, cs) ← time cs
      return (offset cs).getD cs
  | _ => none

def dateTime : Reader Item := fun cs ↦
  match date cs with
  | some (_, cs) => some (.dateTime, (timeOfDay cs).getD cs)
  | none => do
      let (_, rest) ← time cs
      return (.dateTime, rest)

def scalar : Reader Item := fun cs ↦
  match cs with
  | '"' :: _ | '\x27' :: _ => do
      let (s, rest) ← string cs
      return (.string s, rest)
  | 't' :: 'r' :: 'u' :: 'e' :: rest => some (.boolean true, rest)
  | 'f' :: 'a' :: 'l' :: 's' :: 'e' :: rest => some (.boolean false, rest)
  | _ => dateTime cs <|> decimal cs <|> specialFloat cs <|> integer cs

end Timelock.Toml
