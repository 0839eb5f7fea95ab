import Timelock.Toml.Scalar

/-!
# TOML documents

A document is a list of statements, one to a line.  Arrays and tables in braces may stand inside
one another up to a fixed depth, and a key has fewer than eighty parts.
-/

namespace Timelock.Toml

def dropSpaces (cs : List Char) : List Char := cs.dropWhile isSpace

def dropBlank : (comment : Bool) → List Char → Option (List Char)
  | false, [] => some []
  | true, [] => none
  | _, '\n' :: rest => dropBlank false rest
  | _, '\r' :: '\n' :: rest => dropBlank false rest
  | true, c :: rest => if isPlain c then dropBlank true rest else none
  | false, '#' :: rest => dropBlank true rest
  | false, c :: rest => if isSpace c then dropBlank false rest else some (c :: rest)

def lineEnd (cs : List Char) : Option (List Char) :=
  let cs := dropSpaces cs
  let cs := match cs with
    | '#' :: rest => rest.dropWhile isPlain
    | cs => cs
  match cs with
  | [] => some []
  | '\n' :: rest => some rest
  | '\r' :: '\n' :: rest => some rest
  | _ => none

def isBareKeyChar (c : Char) : Bool := c.isAlphanum || c == '-' || c == '_'

def keyPart : Reader String := fun cs ↦
  match cs with
  | '"' :: rest => do
      let (s, rest) ← quotedBody rest
      return (String.ofList s, rest)
  | '\x27' :: rest => do
      let (s, rest) ← literalBody rest
      return (String.ofList s, rest)
  | cs =>
      let s := cs.takeWhile isBareKeyChar
      if s.isEmpty then none else some (String.ofList s, cs.drop s.length)

def keyParts : (limit : Nat) → Reader (List String)
  | 0, _ => none
  | n + 1, cs => do
      let (k, cs) ← keyPart (dropSpaces cs)
      match dropSpaces cs with
      | '.' :: rest =>
          let (ks, rest) ← keyParts n rest
          return (k :: ks, rest)
      | rest => return ([k], rest)

def maxKeyParts : Nat := 79

def key : Reader Key := fun cs ↦ do
  let (ks, rest) ← keyParts maxKeyParts cs
  return (⟨ks.dropLast, ks.getLastD ""⟩, rest)

def pair (value : Reader Item) : Reader (Key × Item) := fun cs ↦ do
  let (k, cs) ← key cs
  let (_, cs) ← expect '=' cs
  let (v, rest) ← value (dropSpaces cs)
  return ((k, v), dropSpaces rest)

/-- The items of an array up to its closing bracket; a comma may follow the last one. -/
def arrayItems (value : Reader Item) : (limit : Nat) → Reader (List Item)
  | 0, _ => none
  | n + 1, cs => do
      match ← dropBlank false cs with
      | ']' :: rest => return ([], rest)
      | cs =>
          let (v, cs) ← value cs
          match ← dropBlank false cs with
          | ',' :: rest =>
              let (vs, rest) ← arrayItems value n rest
              return (v :: vs, rest)
          | ']' :: rest => return ([v], rest)
          | _ => none

def inlinePairs (value : Reader Item) : (limit : Nat) → Reader (List (Key × Item))
  | 0, _ => none
  | n + 1, cs => do
      let (p, cs) ← pair value cs
      match cs with
      | ',' :: rest =>
          let (ps, rest) ← inlinePairs value n rest
          return (p :: ps, rest)
      | '\x7d' :: rest => return ([p], rest)
      | _ => none

def inlineTable (value : Reader Item) : Reader Item := fun cs ↦
  match dropSpaces cs with
  | '\x7d' :: rest => some (.table .inline [], rest)
  | cs => do
      let (ps, rest) ← inlinePairs value (cs.length + 1) cs
      return (.table .inline (← Entries.ofPairs? ps), rest)

/-- A value with at most so many arrays and tables inside one another. -/
def value : (depth : Nat) → Reader Item
  | 0, cs => scalar cs
  | n + 1, cs =>
      match cs with
      | '[' :: rest => do
          let (vs, rest) ← arrayItems (value n) (rest.length + 1) rest
          return (.array vs, rest)
      | '\x7b' :: rest => inlineTable (value n) rest
      | cs => scalar cs

def maxDepth : Nat := 79

def statement : Reader Statement := fun cs ↦
  match cs with
  | '[' :: '[' :: rest => do
      let (k, cs) ← key rest
      let (_, cs) ← expect ']' cs
      let (_, cs) ← expect ']' cs
      return (.elementHeader k, ← lineEnd cs)
  | '[' :: rest => do
      let (k, cs) ← key rest
      let (_, cs) ← expect ']' cs
      return (.header k, ← lineEnd cs)
  | cs => do
      let ((k, v), cs) ← pair (value maxDepth) cs
      return (.pair k v, ← lineEnd cs)

def statements : (limit : Nat) → List Char → Option (List Statement)
  | 0, _ => none
  | n + 1, cs =>
      match dropSpaces cs with
      | [] => some []
      | '\n' :: rest => statements n rest
      | '\r' :: '\n' :: rest => statements n rest
      | '#' :: rest => do statements n (← lineEnd ('#' :: rest))
      | cs => do
          let (s, rest) ← statement cs
          return s :: (← statements n rest)

def dropMark : List Char → List Char
  | '\ufeff' :: rest => rest
  | cs => cs

/-- The tables of a document, or `none` when it is malformed. -/
def ofText? (s : String) : Option Entries := do
  let cs := dropMark s.toList
  Building.ofStatements? (← statements (cs.length + 1) cs)

end Timelock.Toml
