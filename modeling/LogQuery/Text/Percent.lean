import LogQuery.Text.Split
import LogQuery.Text.Utf8

/-!
# Percent-encoding

In a URL a percent sign and two hexadecimal digits stand for a byte. A query
string is a list of fields between ampersands, in which a plus stands for a blank.
-/

namespace LogQuery.Text

/-- The value of a hexadecimal digit. -/
def hexByte? (b : UInt8) : Option UInt8 :=
  if 48 ≤ b && b ≤ 57 then some (b - 48)
  else if 97 ≤ b && b ≤ 102 then some (b - 87)
  else if 65 ≤ b && b ≤ 70 then some (b - 55)
  else none

/-- Decodes what is percent-encoded; a percent sign without digits stays. -/
def percentDecode : Bytes → Bytes
  | 37 :: a :: b :: rest =>
    match hexByte? a, hexByte? b with
    | some high, some low => (high * 16 + low) :: percentDecode rest
    | _, _ => 37 :: percentDecode (a :: b :: rest)
  | b :: rest => b :: percentDecode rest
  | [] => []
termination_by bs => bs.length

/-- Decodes a part of a field. -/
def decodeFieldPart (cs : List Char) : List Char :=
  decodeLossy (percentDecode (encodeChars (cs.map fun c => if c == '+' then ' ' else c)))

/-- The fields of a query string, names and values. -/
def queryFields (cs : List Char) : List (String × String) :=
  ((splitOn '&' cs).filter (!·.isEmpty)).map fun part =>
    let (name, rest) := part.span (· != '=')
    (String.ofList (decodeFieldPart name), String.ofList (decodeFieldPart rest.tail))

example : queryFields "q=a+b%21&&x".toList = [("q", "a b!"), ("x", "")] := by decide +kernel

end LogQuery.Text
