import LogQuery.Sql.Keyword

/-!
# Tokens of the query grammar

A query reaches the grammar as words, numbers, quoted texts, placeholders and
signs. Words in double quotes or backquotes are identifiers and never keywords.
A token has a source form, which writes what it holds between its quotes as it is;
the written form of a text escapes it.
-/

namespace LogQuery.Sql

/-- The ways to quote a text. `raw` and `tripleRaw` keep backslashes, `dollar`
stands between two equal tags. -/
inductive TextKind
  | plain
  | national
  | escaped
  | unicode
  | hex
  | bytes (quote : Char)
  | raw (quote : Char)
  | tripleRaw (quote : Char)
  | dollar (tag : String)
deriving DecidableEq, Repr

/-- Values that stand in the text itself, some of which are missing, and how many
tokens they take. -/
structure InlineData where
  values : List (Option String) := []
  length : Nat := 0
deriving DecidableEq, Repr

/-- A keyword carries its capitals and its spelling. A sign is an operator, a
bracket or any other character. A semicolon carries what comes after it, read as
data. -/
inductive Token
  | keyword (name spelling : String)
  | word (text : String) (quote : Option Char)
  | number (text : String) (long : Bool)
  | text (kind : TextKind) (content : String)
  | placeholder (text : String)
  | sign (text : String)
  | semicolon (data : InlineData)
deriving DecidableEq, Repr

namespace Token

/-- The token of a word without quotes. -/
def ofWord (cs : List Char) : Token :=
  match keywordOf? cs with
  | some name => keyword name (String.ofList cs)
  | none => word (String.ofList cs) none

def isKeyword (k : String) : Token → Bool
  | keyword name _ => name == k
  | _ => false

def isSign (s : String) : Token → Bool
  | sign found => found == s
  | _ => false

def isSemicolon : Token → Bool
  | semicolon _ => true
  | _ => false

end Token

/-! ## Source forms -/

/-- The quotes of a text around its content. -/
def TextKind.around (kind : TextKind) (s : String) : String :=
  let between (quote : Char) (times : Nat) :=
    let q := String.ofList (List.replicate times quote)
    q ++ s ++ q
  match kind with
  | plain => between '\'' 1
  | national => "N" ++ between '\'' 1
  | escaped => "E" ++ between '\'' 1
  | unicode => "U&" ++ between '\'' 1
  | hex => "X" ++ between '\'' 1
  | bytes quote => "B" ++ between quote 1
  | raw quote => "R" ++ between quote 1
  | tripleRaw quote => "R" ++ between quote 3
  | dollar tag => "$" ++ tag ++ "$" ++ s ++ "$" ++ tag ++ "$"

/-- A token with its content as it is. -/
def Token.source : Token → String
  | keyword _ s | word s none | placeholder s | sign s => s
  | word s (some quote) => String.singleton quote ++ s ++ String.singleton quote
  | number s long => if long then s ++ "L" else s
  | text kind s => kind.around s
  | semicolon _ => ";"

/-! ## Written forms -/

/-- Writes a text with its quotes. A quote is doubled, unless it comes as a pair
or stands after a backslash and so counts as doubled already. -/
def escapeQuotes (quote : Char) : (afterBackslash : Bool) → List Char → List Char
  | _, [] => []
  | afterBackslash, c :: cs =>
    if c == quote then
      if afterBackslash then c :: escapeQuotes quote true cs
      else
        match cs with
        | [] => [c, c]
        | d :: ds =>
          if d == quote then c :: c :: escapeQuotes quote false ds
          else c :: c :: escapeQuotes quote false (d :: ds)
    else c :: escapeQuotes quote (c == '\\') cs

def quoted (quote : Char) (s : String) : String :=
  String.ofList (quote :: (escapeQuotes quote false s.toList ++ [quote]))

/-- Writes the characters of an escape text. -/
def backslashed (s : String) : String :=
  String.ofList (s.toList.flatMap fun c =>
    match c with
    | '\'' => ['\\', '\'']
    | '\\' => ['\\', '\\']
    | '\n' => ['\\', 'n']
    | '\t' => ['\\', 't']
    | '\r' => ['\\', 'r']
    | c => [c])

/-- A number in capital hexadecimal digits, padded with zeros. -/
def hexPadded (width n : Nat) : List Char :=
  let digits := (Nat.toDigits 16 n).map Char.toUpper
  List.replicate (width - digits.length) '0' ++ digits

/-- Writes the characters of a text with code points. -/
def codePointed (s : String) : String :=
  String.ofList (s.toList.flatMap fun c =>
    match c with
    | '\'' => ['\'', '\'']
    | '\\' => ['\\', '\\']
    | c =>
      if c.toNat < 0x80 then [c]
      else if c.toNat < 0x10000 then '\\' :: hexPadded 4 c.toNat
      else '\\' :: '+' :: hexPadded 6 c.toNat)

/-- The content of a text as it is written between its quotes. -/
def TextKind.escape (kind : TextKind) (s : String) : String :=
  match kind with
  | plain => String.ofList (escapeQuotes '\'' false s.toList)
  | escaped => backslashed s
  | unicode => codePointed s
  | _ => s

/-- A quoted text in its written form. -/
def TextKind.written (kind : TextKind) (s : String) : String := kind.around (kind.escape s)

end LogQuery.Sql
