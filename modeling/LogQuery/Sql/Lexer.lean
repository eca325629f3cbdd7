import LogQuery.Sql.Lexeme
import LogQuery.Text.Blank
import LogQuery.Text.Letter

/-!
# Reading tokens

Blanks and comments separate tokens; every other character is part of one. Only a
quoted text or comment that does not end, or an escape in one that means no
character, makes a text unreadable.
-/

namespace LogQuery.Sql

open LogQuery.Text

/-- What a rule reads, and what is left. -/
abbrev Read (α : Type) := Option (α × List Char)

/-! ## Quoted texts -/

/-- The character a backslash and a letter stand for. -/
def controlOf (c : Char) : Char :=
  match c with
  | '0' => '\x00'
  | 'a' => '\x07'
  | 'b' => '\x08'
  | 'f' => '\x0c'
  | 'n' => '\n'
  | 'r' => '\r'
  | 't' => '\t'
  | 'Z' => '\x1a'
  | c => c

def prepend (c : Char) : List Char × List Char → List Char × List Char
  | (cs, rest) => (c :: cs, rest)

/-- Reads up to the closing quote; a doubled quote is one. -/
def readQuoted (quote : Char) (escapes : Bool) : List Char → Read (List Char)
  | [] => none
  | c :: cs =>
    if c == quote then
      match cs with
      | [] => some ([], [])
      | d :: ds =>
        if d == quote then (readQuoted quote escapes ds).map (prepend quote) else some ([], d :: ds)
    else if escapes && c == '\\' then
      match cs with
      | [] => none
      | d :: ds => (readQuoted quote escapes ds).map (prepend (controlOf d))
    else (readQuoted quote escapes cs).map (prepend c)

/-- Reads up to a closing text. -/
def readUntil (closing : List Char) : List Char → Read (List Char)
  | [] => none
  | c :: cs =>
    if closing.isPrefixOf (c :: cs) then some ([], (c :: cs).drop closing.length)
    else (readUntil closing cs).map (prepend c)

def hexValue? (c : Char) : Option Nat :=
  if c.isDigit then some (c.toNat - 48)
  else if 'a' ≤ c && c ≤ 'f' then some (c.toNat - 87)
  else if 'A' ≤ c && c ≤ 'F' then some (c.toNat - 55)
  else none

/-- The number that digits write in a base. -/
def valueIn (base : Nat) (digits : List Nat) : Nat := digits.foldl (fun n d => n * base + d) 0

/-- The character at a code point. -/
def charAt? (n : Nat) : Option Char := if h : n.isValidChar then some (Char.ofNatAux n h) else none

/-- The character that exactly `count` hexadecimal digits stand for. -/
def readCodePoint (count : Nat) (cs : List Char) : Read Char :=
  if cs.length < count then none
  else
    match (cs.take count).mapM hexValue? with
    | some digits => (charAt? (valueIn 16 digits)).map (·, cs.drop count)
    | none => none

/-- Like `readCodePoint`, but a plus sign may stand in place of the first digit. -/
def readSignedCodePoint (count : Nat) : List Char → Read Char
  | '+' :: cs => if count ≤ 1 then none else readCodePoint (count - 1) cs
  | cs => readCodePoint count cs

/-- Reads the text of `U&'…'`: a backslash comes before four hexadecimal digits,
a plus sign and six of them, or a backslash. -/
def readCodePoints : Nat → List Char → Read (List Char)
  | 0, _ => none
  | _ + 1, [] => none
  | fuel + 1, '\'' :: '\'' :: cs => (readCodePoints fuel cs).map (prepend '\'')
  | _ + 1, '\'' :: cs => some ([], cs)
  | fuel + 1, '\\' :: '\\' :: cs => (readCodePoints fuel cs).map (prepend '\\')
  | fuel + 1, '\\' :: '+' :: cs =>
    (readCodePoint 6 cs).bind fun (c, rest) => (readCodePoints fuel rest).map (prepend c)
  | fuel + 1, '\\' :: cs =>
    (readCodePoint 4 cs).bind fun (c, rest) => (readCodePoints fuel rest).map (prepend c)
  | fuel + 1, c :: cs => (readCodePoints fuel cs).map (prepend c)

/-- The character of a byte written in digits, if it is an ASCII one. -/
def asciiOf? (base : Nat) (digits : List Nat) : Option Char :=
  let n := valueIn base digits % 256
  if n < 128 then charAt? n else none

def octalValue? (c : Char) : Option Nat :=
  if '0' ≤ c && c ≤ '7' then some (c.toNat - 48) else none

/-- At most `count` digits at the front. -/
def leadingDigits (value? : Char → Option Nat) : (count : Nat) → List Char → List Nat × List Char
  | 0, cs => ([], cs)
  | _ + 1, [] => ([], [])
  | n + 1, c :: cs =>
    match value? c with
    | some d => (d :: (leadingDigits value? n cs).1, (leadingDigits value? n cs).2)
    | none => ([], c :: cs)

/-- What follows the backslash in an escape text. -/
def readEscape : List Char → Read Char
  | [] => none
  | 'b' :: cs => some ('\x08', cs)
  | 'f' :: cs => some ('\x0c', cs)
  | 'n' :: cs => some ('\n', cs)
  | 'r' :: cs => some ('\r', cs)
  | 't' :: cs => some ('\t', cs)
  | 'u' :: cs => readSignedCodePoint 4 cs
  | 'U' :: cs => readSignedCodePoint 8 cs
  | 'x' :: cs =>
    match leadingDigits hexValue? 2 cs with
    | ([], rest) => some ('x', rest)
    | (digits, rest) => (asciiOf? 16 digits).map (·, rest)
  | c :: cs =>
    match octalValue? c with
    | some d =>
      let (ds, rest) := leadingDigits octalValue? 2 cs
      (asciiOf? 8 (d :: ds)).map (·, rest)
    | none => some (c, cs)

/-- Reads the text of `E'…'`. No escape may stand for the character zero. -/
def readEscaped : Nat → List Char → Read (List Char)
  | 0, _ => none
  | _ + 1, [] => none
  | fuel + 1, '\'' :: '\'' :: cs => (readEscaped fuel cs).map (prepend '\'')
  | _ + 1, '\'' :: cs => some ([], cs)
  | fuel + 1, '\\' :: cs =>
    (readEscape cs).bind fun (c, rest) =>
      if c == '\x00' then none else (readEscaped fuel rest).map (prepend c)
  | fuel + 1, c :: cs => (readEscaped fuel cs).map (prepend c)

/-- Reads a raw text after its first quote; three quotes close one that three opened. -/
def readRaw (quote : Char) : List Char → Read Token
  | c :: d :: cs =>
    if c == quote && d == quote then
      (readUntil [quote, quote, quote] cs).map fun (s, rest) =>
        (.text (.tripleRaw quote) (String.ofList s), rest)
    else if c == quote then some (.text (.raw quote) "", d :: cs)
    else (readQuoted quote false (c :: d :: cs)).map fun (s, rest) =>
      (.text (.raw quote) (String.ofList s), rest)
  | cs => (readQuoted quote false cs).map fun (s, rest) =>
    (.text (.raw quote) (String.ofList s), rest)

/-! ## Words, numbers and signs -/

def startsWord (c : Char) : Bool := isLetter c || c == '_' || c == '#' || c == '@'

def continuesWord (c : Char) : Bool :=
  isLetter c || c.isDigit || c == '@' || c == '$' || c == '#' || c == '_'

/-- A word whose first characters are read. -/
def readWord (start cs : List Char) : Token × List Char :=
  (.ofWord (start ++ cs.takeWhile continuesWord), cs.dropWhile continuesWord)

/-- The exponent at the front of a text, if there is one. -/
def readExponent : List Char → List Char × List Char
  | e :: sign :: cs =>
    if e == 'e' || e == 'E' then
      if (sign == '+' || sign == '-') && cs.head?.any Char.isDigit then
        (e :: sign :: cs.takeWhile Char.isDigit, cs.dropWhile Char.isDigit)
      else if sign.isDigit then
        (e :: (sign :: cs).takeWhile Char.isDigit, (sign :: cs).dropWhile Char.isDigit)
      else ([], e :: sign :: cs)
    else ([], e :: sign :: cs)
  | cs => ([], cs)

/-- Digits, a point and digits, an exponent, and an `L` for a long number. A lone
point is a sign. -/
def readNumber (cs : List Char) : Token × List Char :=
  let whole := cs.takeWhile Char.isDigit
  match whole, cs.dropWhile Char.isDigit with
  | ['0'], 'x' :: rest =>
    (.text .hex (String.ofList (rest.takeWhile fun c => (hexValue? c).isSome)),
      rest.dropWhile fun c => (hexValue? c).isSome)
  | _, afterWhole =>
    let (point, afterPoint) :=
      match afterWhole with
      | '.' :: rest => (['.'], rest)
      | rest => ([], rest)
    let mantissa := whole ++ point ++ afterPoint.takeWhile Char.isDigit
    let afterMantissa := afterPoint.dropWhile Char.isDigit
    if mantissa == ['.'] then (.sign ".", afterMantissa)
    else
      let (exponent, rest) := readExponent afterMantissa
      let text := String.ofList (mantissa ++ exponent)
      match rest with
      | 'L' :: rest => (.number text true, rest)
      | rest => (.number text false, rest)

/-- Signs of several characters, no earlier one the start of a later one. -/
def longSigns : List String :=
  ["->>", "->", "//", "|/", "||/", "||", "=>", "==", "!=", "!!", "!~~*", "!~~", "!~*", "!~",
    "<=>", "<=", "<>", "<<", "<@", ">=", ">>", "::", ":=", "&&", "^@", "~~*", "~~", "~*"]

/-- A sign; `!=` is written `<>`. -/
def readSign (c : Char) (cs : List Char) : Token × List Char :=
  match longSigns.find? fun s => s.toList.isPrefixOf (c :: cs) with
  | some s => (.sign (if s == "!=" then "<>" else s), (c :: cs).drop s.length)
  | none => (.sign (String.singleton c), cs)

/-- What starts with `@`. -/
def readAt : List Char → Token × List Char
  | '>' :: cs => (.sign "@>", cs)
  | '?' :: cs => (.sign "@?", cs)
  | '@' :: c :: cs => if c == ' ' then (.sign "@@", c :: cs) else readWord ['@', '@', c] cs
  | ['@'] => (.sign "@@", [])
  | c :: cs => if c == ' ' then (.sign "@", c :: cs) else readWord ['@', c] cs
  | [] => (.sign "@", [])

/-- What starts with `#`. -/
def readHash : List Char → Token × List Char
  | '-' :: cs => (.sign "#-", cs)
  | '>' :: '>' :: cs => (.sign "#>>", cs)
  | '>' :: cs => (.sign "#>", cs)
  | c :: cs => if c == ' ' then (.sign "#", c :: cs) else readWord ['#', c] cs
  | [] => (.sign "#", [])

/-- How far a tag goes on after the dollar sign before it. -/
inductive TagMatch
  | closed (rest : List Char)
  | differs (seen rest : List Char)
  | cut

/-- Compares a tag and a dollar sign after it with a text. A character that differs
from the tag is seen too, but not one in place of the dollar sign. -/
def matchTag : (tag : List Char) → List Char → TagMatch
  | [], '$' :: cs => .closed cs
  | [], cs => .differs [] cs
  | _ :: _, [] => .cut
  | t :: tag, c :: cs =>
    if c == t then
      match matchTag tag cs with
      | .differs seen rest => .differs (c :: seen) rest
      | m => m
    else .differs [c] cs

/-- Reads up to a tag between dollar signs. What only starts like it is read before
the search goes on. -/
def readUntilTag (tag : List Char) : Nat → List Char → Read (List Char)
  | 0, _ | _, [] => none
  | fuel + 1, '$' :: cs =>
    match matchTag tag cs with
    | .closed rest => some ([], rest)
    | .differs seen rest =>
      (readUntilTag tag fuel rest).map fun (s, rest) => ('$' :: seen ++ s, rest)
    | .cut => none
  | fuel + 1, c :: cs => (readUntilTag tag fuel cs).map (prepend c)

/-- What starts with `$`: a placeholder, or a text between two equal tags. -/
def readDollar (cs : List Char) : Read Token :=
  let isTagChar (c : Char) := isLetterOrNumber c || c == '_'
  let tag := cs.takeWhile isTagChar
  match cs.dropWhile isTagChar with
  | '$' :: rest =>
    let content :=
      if tag.isEmpty then readUntil ['$', '$'] rest else readUntilTag tag (rest.length + 1) rest
    content.map fun (s, rest) => (.text (.dollar (String.ofList tag)) (String.ofList s), rest)
  | rest => some (.placeholder (String.ofList ('$' :: tag)), rest)

/-! ## Lexemes -/

/-- Passes over a comment that nests, `depth` of whose openings are unclosed. -/
def skipComment : (depth : Nat) → (before : Char) → List Char → Option (List Char)
  | _, _, [] => none
  | depth, before, c :: cs =>
    if before == '/' && c == '*' then skipComment (depth + 1) c cs
    else if before == '*' && c == '/' then
      if depth ≤ 1 then some cs else skipComment (depth - 1) c cs
    else skipComment depth c cs

/-- Reads the quoted text or else the word that a letter may introduce. -/
def readIntroduced (c : Char) (cs : List Char) : Read Token :=
  let plain (kind : TextKind) (quote : Char) (escapes : Bool) (rest : List Char) : Read Token :=
    (readQuoted quote escapes rest).map fun (s, rest) => (.text kind (String.ofList s), rest)
  let mapText (kind : TextKind) (r : Read (List Char)) : Read Token :=
    r.map fun (s, rest) => (.text kind (String.ofList s), rest)
  match c.toUpper, cs with
  | 'B', '\'' :: rest => plain (.bytes '\'') '\'' false rest
  | 'B', '"' :: rest => plain (.bytes '"') '"' false rest
  | 'R', '\'' :: rest => readRaw '\'' rest
  | 'R', '"' :: rest => readRaw '"' rest
  | 'N', '\'' :: rest => plain .national '\'' true rest
  | 'X', '\'' :: rest => plain .hex '\'' true rest
  | 'E', '\'' :: rest => mapText .escaped (readEscaped (rest.length + 1) rest)
  | 'U', '&' :: '\'' :: rest => mapText .unicode (readCodePoints (rest.length + 1) rest)
  | _, _ => some (readWord [c] cs)

/-- A blank that starts with a character. -/
def readBlank (c : Char) (cs : List Char) : Lexeme × List Char :=
  match c, cs with
  | '\t', cs => (.blank "\t", cs)
  | '\n', cs | '\r', '\n' :: cs | '\r', cs => (.blank "\n", cs)
  | _, cs => (.blank " ", cs)

/-- The front of a text up to what is left of it. -/
def frontOf (cs rest : List Char) : String := String.ofList (cs.take (cs.length - rest.length))

/-- Passes over a comment, if one starts there; nothing is left of one that does
not end. -/
def skippedComment? : List Char → Option (Option (List Char))
  | '-' :: '-' :: cs => some (some ((cs.dropWhile (· != '\n')).drop 1))
  | '/' :: '*' :: cs => some (skipComment 1 ' ' cs)
  | _ => none

/-- A token that is no comment. -/
def readToken (c : Char) (cs : List Char) : Read Token :=
  if c == '\'' then
    (readQuoted '\'' false cs).map fun (s, rest) => (.text .plain (String.ofList s), rest)
  else if c == '"' || c == '\x60' then
    (readQuoted c false cs).map fun (s, rest) => (.word (String.ofList s) (some c), rest)
  else if c.isDigit || c == '.' then some (readNumber (c :: cs))
  else if c == '#' then some (readHash cs)
  else if c == '@' then some (readAt cs)
  else if c == '$' then readDollar cs
  else if startsWord c then readIntroduced c cs
  else if c == ';' then some (.semicolon {}, cs)
  else if c == '?' then
    some (.placeholder (String.ofList ('?' :: cs.takeWhile isNumeric)), cs.dropWhile isNumeric)
  else some (readSign c cs)

/-- The lexeme at the front of a text. -/
def readLexeme (c : Char) (cs : List Char) : Read Lexeme :=
  if isBlank c then some (readBlank c cs)
  else
    match skippedComment? (c :: cs) with
    | some rest => rest.map fun rest => (.blank (frontOf (c :: cs) rest), rest)
    | none => (readToken c cs).map fun (t, rest) => (.token t, rest)

def lexemesFrom : Nat → List Char → Option (List Lexeme)
  | _, [] => some []
  | 0, _ :: _ => none
  | fuel + 1, c :: cs => do
    let (l, rest) ← readLexeme c cs
    return l :: (← lexemesFrom fuel rest)

/-- The tokens of a text. -/
def tokens? (cs : List Char) : Option (List Token) :=
  (lexemesFrom cs.length cs).map (Lexeme.tokens false)

end LogQuery.Sql
