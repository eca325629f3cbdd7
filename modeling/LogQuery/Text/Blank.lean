/-!
# Blanks

Two notions of white space that must not be confused: Unicode's White_Space,
which is trimmed from query and date texts, and ASCII white space, which is
trimmed from the bytes of a log line.
-/

namespace LogQuery.Text

/-- The Unicode property White_Space. -/
def isBlank (c : Char) : Bool :=
  let n := c.toNat
  (9 ≤ n && n ≤ 13) || n == 32 || n == 0x85 || n == 0xA0 || n == 0x1680 ||
    (0x2000 ≤ n && n ≤ 0x200A) || n == 0x2028 || n == 0x2029 || n == 0x202F ||
    n == 0x205F || n == 0x3000

/-- Space, tab, line feed, form feed and carriage return. -/
def isBlankByte (b : UInt8) : Bool :=
  b == 32 || b == 9 || b == 10 || b == 12 || b == 13

/-- Drops the elements satisfying `p` from both ends. -/
def trimBy {α : Type} (p : α → Bool) (xs : List α) : List α :=
  ((xs.dropWhile p).reverse.dropWhile p).reverse

/-- Removes white space from both ends of a text. -/
def trimChars (cs : List Char) : List Char := trimBy isBlank cs

/-- Removes white space from both ends of a text. -/
def trim (s : String) : String := String.ofList (trimChars s.toList)

end LogQuery.Text
