import Timelock.Json.Token

/-!
# Printing JSON

The compact form is the spelling of a value's tokens with nothing between them.  The pretty
form puts each item on a line of its own, indented by two spaces for each level.
-/

namespace Timelock.Json.Value

mutual

def tokens : Value → List Token
  | .null => [.null]
  | .bool b => [.bool b]
  | .number n => [.number (some n)]
  | .string s => [.string (some s)]
  | .array vs => .openArray :: (itemTokens vs ++ [.closeArray])
  | .object ms => .openObject :: (memberTokens ms ++ [.closeObject])

def itemTokens : List Value → List Token
  | [] => []
  | v :: vs => v.tokens ++ laterItemTokens vs

def laterItemTokens : List Value → List Token
  | [] => []
  | v :: vs => .comma :: (v.tokens ++ laterItemTokens vs)

def memberTokens : List (String × Value) → List Token
  | [] => []
  | (k, v) :: ms => .string (some k) :: .colon :: (v.tokens ++ laterMemberTokens ms)

def laterMemberTokens : List (String × Value) → List Token
  | [] => []
  | (k, v) :: ms => .comma :: .string (some k) :: .colon :: (v.tokens ++ laterMemberTokens ms)

end

def compactChars (v : Value) : List Char :=
  v.tokens.flatMap Token.spell

def compact (v : Value) : String :=
  String.ofList v.compactChars

def newline (depth : Nat) : List Char :=
  '\n' :: List.replicate (2 * depth) ' '

mutual

def prettyChars (depth : Nat) : Value → List Char
  | .null => Token.null.spell
  | .bool b => (Token.bool b).spell
  | .number n => n.text
  | .string s => Token.quote s
  | .array [] => ['[', ']']
  | .array (v :: vs) =>
      '[' :: (newline (depth + 1) ++ v.prettyChars (depth + 1) ++ prettyItems (depth + 1) vs ++
        newline depth ++ [']'])
  | .object [] => ['{', '}']
  | .object ((k, v) :: ms) =>
      '{' :: (newline (depth + 1) ++ Token.quote k ++ ':' :: ' ' :: v.prettyChars (depth + 1) ++
        prettyMembers (depth + 1) ms ++ newline depth ++ ['}'])

def prettyItems (depth : Nat) : List Value → List Char
  | [] => []
  | v :: vs => ',' :: (newline depth ++ v.prettyChars depth ++ prettyItems depth vs)

def prettyMembers (depth : Nat) : List (String × Value) → List Char
  | [] => []
  | (k, v) :: ms =>
      ',' :: (newline depth ++ Token.quote k ++ ':' :: ' ' :: v.prettyChars depth ++
        prettyMembers depth ms)

end

/-- Indented by two spaces for each level. -/
def pretty (v : Value) : String :=
  String.ofList (v.prettyChars 0)

end Timelock.Json.Value
