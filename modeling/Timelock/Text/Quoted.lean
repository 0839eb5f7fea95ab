import Timelock.OrderedSet
import Timelock.Text.Printable

/-!
# Quoted text

Text between quotation marks with everything escaped that would not show: used where a
message or a summary names a string.  Lists stand in brackets and sets in braces.
-/

namespace Timelock.Text

def shows (c : Char) : Bool := isPrintable c && !extendsGrapheme c

def codePoint (c : Char) : List Char :=
  '\\' :: 'u' :: '\x7b' :: (Nat.toDigits 16 c.toNat ++ ['\x7d'])

def escapeShown (mark c : Char) : List Char :=
  if c == '\x00' then ['\\', '0']
  else if c == '\t' then ['\\', 't']
  else if c == '\n' then ['\\', 'n']
  else if c == '\r' then ['\\', 'r']
  else if c == '\\' || c == mark then ['\\', c]
  else if shows c then [c]
  else codePoint c

def quoted (s : String) : String :=
  String.ofList ('"' :: (s.toList.flatMap (escapeShown '"') ++ ['"']))

def quotedChar (c : Char) : String :=
  String.ofList ('\x27' :: (escapeShown '\x27' c ++ ['\x27']))

def bracketed (items : List String) : String :=
  "[" ++ ", ".intercalate items ++ "]"

def quotedList (items : List String) : String :=
  bracketed (items.map quoted)

def decimal (n : Nat) : String :=
  String.ofList (Nat.toDigits 10 n)

def braced (s : Selectors) : String :=
  "\x7b" ++ ", ".intercalate (s.toList.map (fun n ↦ decimal n.toNat)) ++ "\x7d"

/-- Words in back quotes, as a choice among them. -/
def choice (words : List String) : String :=
  let ticked := words.map (fun w ↦ "\x60" ++ w ++ "\x60")
  match ticked with
  | [a, b] => a ++ " or " ++ b
  | [a] => a
  | _ => "one of " ++ ", ".intercalate ticked

end Timelock.Text
