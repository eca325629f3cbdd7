import LogQuery.Json.Value

/-!
# Writing JSON

`Value.chars` is the compact form: no blanks, members in key order, control
characters escaped, all else as it is. `prettyCounts` is the indented form of a
table of counts.
-/

namespace LogQuery.Json

/-- Two lower-case hexadecimal digits of a number below 256. -/
def hexPair (n : Nat) : List Char := [Nat.digitChar (n / 16), Nat.digitChar (n % 16)]

/-- A character inside a string. -/
def escapeChar (c : Char) : List Char :=
  if c == '"' then ['\\', '"']
  else if c == '\\' then ['\\', '\\']
  else if c.toNat == 8 then ['\\', 'b']
  else if c.toNat == 12 then ['\\', 'f']
  else if c == '\n' then ['\\', 'n']
  else if c == '\r' then ['\\', 'r']
  else if c == '\t' then ['\\', 't']
  else if c.toNat < 32 then ['\\', 'u', '0', '0'] ++ hexPair c.toNat
  else [c]

/-- A string with its quotes. -/
def quoteChars (cs : List Char) : List Char := '"' :: cs.flatMap escapeChar ++ ['"']

def intChars (n : Int) : List Char :=
  if n < 0 then '-' :: Nat.toDigits 10 n.natAbs else Nat.toDigits 10 n.natAbs

def Number.chars : Number → List Char
  | .integer n => intChars n
  | .real x => x.chars

/-- Texts with commas between them. -/
def commaChars : List (List Char) → List Char
  | [] => []
  | [cs] => cs
  | cs :: rest => cs ++ ',' :: commaChars rest

def memberChars (key : String) (value : List Char) : List Char :=
  quoteChars key.toList ++ ':' :: value

mutual

/-- The compact form of a value. -/
def Value.chars : Value → List Char
  | .null => "null".toList
  | .bool true => "true".toList
  | .bool false => "false".toList
  | .number n => n.chars
  | .string s => quoteChars s.toList
  | .array items => '[' :: commaChars (itemsChars items) ++ [']']
  | .object members => '{' :: commaChars (membersChars members) ++ ['}']

def itemsChars : List Value → List (List Char)
  | [] => []
  | v :: vs => v.chars :: itemsChars vs

def membersChars : List (String × Value) → List (List Char)
  | [] => []
  | (k, v) :: rest => memberChars k v.chars :: membersChars rest

end

/-- The compact form of a value. -/
def Value.text (v : Value) : String := String.ofList v.chars

/-- The compact form of a string. -/
def quote (s : String) : String := String.ofList (quoteChars s.toList)

/-- A table of counts, one entry to a line. -/
def prettyCounts (counts : List (String × Nat)) : String :=
  if counts.isEmpty then "\x7b\x7d"
  else
    "\x7b\n" ++ ",\n".intercalate (counts.map fun (k, n) => "  " ++ quote k ++ ": " ++ toString n) ++
      "\n\x7d"

end LogQuery.Json
