/-!
# White space

The characters of the Unicode property `White_Space`, and trimming by it.  An identifier
is blank when trimming leaves nothing of it.
-/

namespace Timelock.Text

/-- The Unicode property `White_Space`; the zero-width space U+200B is not in it. -/
def isBlank (c : Char) : Bool :=
  let n := c.toNat
  (0x09 ≤ n && n ≤ 0x0D) || n == 0x20 || n == 0x85 || n == 0xA0 || n == 0x1680 ||
    (0x2000 ≤ n && n ≤ 0x200A) || n == 0x2028 || n == 0x2029 || n == 0x202F ||
    n == 0x205F || n == 0x3000

def trimChars (cs : List Char) : List Char :=
  ((cs.dropWhile isBlank).reverse.dropWhile isBlank).reverse

def trim (s : String) : String :=
  String.ofList (trimChars s.toList)

def allBlank (s : String) : Bool :=
  s.toList.all isBlank

end Timelock.Text
