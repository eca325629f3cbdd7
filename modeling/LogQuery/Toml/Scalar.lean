import LogQuery.Calendar.Reading
import LogQuery.Toml.Value

/-!
# Scalars of TOML

Strings in their four forms, numbers, dates and the words. Each reader takes a
value from the front of a text and gives back what follows it.
-/

namespace LogQuery.Toml

open LogQuery.Decimal LogQuery.Calendar

/-- A character that may stand in a text as it is, line breaks aside. -/
def isPlain (c : Char) : Bool :=
  c == '\t' || (0x20 ≤ c.toNat && c.toNat ≤ 0x7E) || 0x80 ≤ c.toNat

def isSpace (c : Char) : Bool := c == ' ' || c == '\t'

def skipSpace (cs : List Char) : List Char := cs.dropWhile isSpace

/-- What follows a line break. -/
def afterBreak? : List Char → Option (List Char)
  | '\n' :: cs => some cs
  | '\r' :: '\n' :: cs => some cs
  | _ => none

/-- What follows a text that stands at the front. -/
def after? (text cs : List Char) : Option (List Char) :=
  if text.isPrefixOf cs then some (cs.drop text.length) else none

/-! ## Strings -/

def hexDigit? (c : Char) : Option Nat :=
  if c.isDigit then some (c.toNat - 48)
  else if 'a' ≤ c && c ≤ 'f' then some (c.toNat - 87)
  else if 'A' ≤ c && c ≤ 'F' then some (c.toNat - 55)
  else none

/-- The character of a number in hexadecimal digits. -/
def charOfHex? (digits : List Char) : Option Char := do
  let n := (← digits.mapM hexDigit?).foldl (fun n d => n * 16 + d) 0
  if n.isValidChar then some (Char.ofNat n) else none

/-- The character of an escape after its backslash. -/
def escape? : List Char → Option (Char × List Char)
  | 'b' :: cs => some ('\x08', cs)
  | 't' :: cs => some ('\t', cs)
  | 'n' :: cs => some ('\n', cs)
  | 'f' :: cs => some ('\x0c', cs)
  | 'r' :: cs => some ('\r', cs)
  | '"' :: cs => some ('"', cs)
  | '\\' :: cs => some ('\\', cs)
  | 'u' :: cs => if cs.length < 4 then none else (charOfHex? (cs.take 4)).map (·, cs.drop 4)
  | 'U' :: cs => if cs.length < 8 then none else (charOfHex? (cs.take 8)).map (·, cs.drop 8)
  | _ => none

/-- The rest of a string on one line; escapes count where `escapes` says so. -/
def lineString (quote : Char) (escapes : Bool) : (fuel : Nat) → List Char →
    Option (List Char × List Char)
  | 0, _ | _, [] => none
  | fuel + 1, c :: cs =>
    if c == quote then some ([], cs)
    else if escapes && c == '\\' then do
      let (e, rest) ← escape? cs
      let (s, rest) ← lineString quote escapes fuel rest
      return (e :: s, rest)
    else if isPlain c then do
      let (s, rest) ← lineString quote escapes fuel cs
      return (c :: s, rest)
    else none

/-- Skips blanks and line breaks. -/
def skipBlankLines : List Char → List Char
  | [] => []
  | '\r' :: '\n' :: cs => skipBlankLines cs
  | c :: cs => if isSpace c || c == '\n' then skipBlankLines cs else c :: cs

/-- What follows a backslash that ends a line. -/
def afterFold? (cs : List Char) : Option (List Char) :=
  (afterBreak? (skipSpace cs)).map skipBlankLines

/-- The rest of a string on several lines. One or two quotes may stand anywhere in
it, also right before the closing three. -/
def blockString (quote : Char) (escapes : Bool) : (fuel : Nat) → List Char →
    Option (List Char × List Char)
  | 0, _ | _, [] => none
  | fuel + 1, c :: cs =>
    if c == quote then
      let run := ((c :: cs).takeWhile (· == quote)).length
      if run < 3 then do
        let (s, rest) ← blockString quote escapes fuel cs
        return (c :: s, rest)
      else
        let kept := min (run - 3) 2
        some (List.replicate kept quote, cs.drop (kept + 2))
    else if escapes && c == '\\' then
      match afterFold? cs with
      | some rest => blockString quote escapes fuel rest
      | none => do
        let (e, rest) ← escape? cs
        let (s, rest) ← blockString quote escapes fuel rest
        return (e :: s, rest)
    else
      match afterBreak? (c :: cs) with
      | some rest => do
        let (s, rest) ← blockString quote escapes fuel rest
        return ('\n' :: s, rest)
      | none =>
        if isPlain c then do
          let (s, rest) ← blockString quote escapes fuel cs
          return (c :: s, rest)
        else none

/-- A string at the front, after its first quote. -/
def stringAfter (quote : Char) (cs : List Char) : Option (List Char × List Char) :=
  let escapes := quote == '"'
  match cs with
  | a :: b :: rest =>
    if a == quote && b == quote then
      blockString quote escapes (rest.length + 1) ((afterBreak? rest).getD rest)
    else lineString quote escapes (cs.length + 1) cs
  | cs => lineString quote escapes (cs.length + 1) cs

/-- A string on one line, after its first quote. -/
def shortStringAfter (quote : Char) (cs : List Char) : Option (String × List Char) :=
  (lineString quote (quote == '"') (cs.length + 1) cs).map fun (s, rest) => (String.ofList s, rest)

/-! ## Numbers -/

/-- More digits, with single underscores between them. -/
def moreDigits (isDigit : Char → Bool) : List Char → Option (List Char × List Char)
  | [] => some ([], [])
  | '_' :: c :: cs =>
    if isDigit c then (moreDigits isDigit cs).map fun (ds, rest) => (c :: ds, rest) else none
  | c :: cs =>
    if isDigit c then (moreDigits isDigit cs).map fun (ds, rest) => (c :: ds, rest)
    else some ([], c :: cs)

/-- Digits, at least one, with single underscores between them. -/
def someDigits (isDigit : Char → Bool) : List Char → Option (List Char × List Char)
  | [] => none
  | c :: cs =>
    if isDigit c then (moreDigits isDigit cs).map fun (ds, rest) => (c :: ds, rest) else none

/-- Digits of a decimal integer; no zero stands before other digits. -/
def decimalDigits : List Char → Option (List Char × List Char)
  | '0' :: cs => some (['0'], cs)
  | cs => someDigits Char.isDigit cs

/-- An exponent, if one stands at the front: `e`, a sign, and digits. -/
def exponent? : List Char → Option (List Char × List Char)
  | c :: cs =>
    if c == 'e' || c == 'E' then do
      let (negative, rest) := spanSign cs
      let (ds, rest) ← someDigits Char.isDigit rest
      return ('e' :: (if negative then ['-'] else []) ++ ds, rest)
    else none
  | [] => none

/-- A number with a fraction, an exponent or both. -/
def float? (cs : List Char) : Option (Value × List Char) := do
  let (negative, rest) := spanSign cs
  let (whole, rest) ← decimalDigits rest
  let (text, rest) ← match rest with
    | '.' :: rest => do
      let (fraction, rest) ← someDigits Char.isDigit rest
      let text := whole ++ '.' :: fraction
      match rest.head? with
      | some c =>
        if c == 'e' || c == 'E' then (exponent? rest).map fun (e, rest) => (text ++ e, rest)
        else some (text, rest)
      | none => some (text, rest)
    | rest => (exponent? rest).map fun (e, rest) => (whole ++ e, rest)
  if negative || (double? text).isSome then some (.float, rest) else none

/-- The names of infinity and of what is no number. -/
def namedFloat? (cs : List Char) : Option (Value × List Char) :=
  let rest := (spanSign cs).2
  ((after? "inf".toList rest).or (after? "nan".toList rest)).map (Value.float, ·)

def integerOf (n : Int) (rest : List Char) : Option (Value × List Char) :=
  if isInt64 n then some (.integer n, rest) else none

/-- An integer of 64 bits in a base other than ten. -/
def basedInteger? (base : Nat) (cs : List Char) : Option (Value × List Char) := do
  let (ds, rest) ← someDigits (fun c => (hexDigit? c).any (· < base)) cs
  integerOf ((ds.filterMap hexDigit?).foldl (fun n d => n * base + d) 0 : Nat) rest

/-- An integer of 64 bits. -/
def integer? : List Char → Option (Value × List Char)
  | '0' :: 'x' :: cs => basedInteger? 16 cs
  | '0' :: 'o' :: cs => basedInteger? 8 cs
  | '0' :: 'b' :: cs => basedInteger? 2 cs
  | cs => do
    let (negative, rest) := spanSign cs
    let (ds, rest) ← decimalDigits rest
    integerOf (if negative then -(ofDigits ds : Int) else ofDigits ds) rest

/-! ## Dates -/

/-- A number of two digits in a range. -/
def twoDigits? (least most : Nat) (cs : List Char) : Option (Nat × List Char) :=
  (fixed? 2 cs).bind fun (n, rest) => (inRange least most n).map (·, rest)

/-- The time of a day; a minute may have a leap second. -/
def timeOfDay? (cs : List Char) : Option (List Char) := do
  let (_, rest) ← twoDigits? 0 23 cs
  let rest ← expect? ':' rest
  let (_, rest) ← twoDigits? 0 59 rest
  let rest ← expect? ':' rest
  let (_, rest) ← twoDigits? 0 60 rest
  match rest with
  | '.' :: digits =>
    let (ds, rest) := spanDigits digits
    if ds.isEmpty then none else some rest
  | rest => some rest

/-- The offset from universal time. -/
def zone? : List Char → Option (List Char)
  | 'Z' :: cs | 'z' :: cs => some cs
  | '+' :: cs | '-' :: cs => do
    let (_, rest) ← twoDigits? 0 23 cs
    let rest ← expect? ':' rest
    let (_, rest) ← twoDigits? 0 59 rest
    return rest
  | _ => none

/-- What follows a date: nothing, or a time, or a time and an offset. -/
def afterDate (cs : List Char) : Option (List Char) :=
  match cs with
  | c :: rest =>
    if isDateTimeSeparator c then
      match timeOfDay? rest with
      | some rest =>
        match rest.head? with
        | some s => if s == '+' || s == '-' then zone? rest else some ((zone? rest).getD rest)
        | none => some rest
      | none => if c == ' ' then some cs else none
    else some cs
  | [] => some []

/-- A date, a time, or both. -/
def date? (cs : List Char) : Option (Value × List Char) :=
  match fixed? 4 cs with
  | some (year, '-' :: rest) => do
    let (month, rest) ← twoDigits? 1 12 rest
    let rest ← expect? '-' rest
    let (day, rest) ← twoDigits? 1 31 rest
    if day ≤ daysInMonth year month then (afterDate rest).map (Value.date, ·) else none
  | _ => (timeOfDay? cs).map (Value.date, ·)

/-- A number or a date. -/
def numberOrDate? (cs : List Char) : Option (Value × List Char) :=
  (date? cs).or ((float? cs).or ((namedFloat? cs).or (integer? cs)))

example : (integer? "1_000".toList).map Prod.snd = some [] := by decide +kernel
example : (integer? "0x_1".toList).isNone ∧ (float? "1.".toList).isNone := by decide +kernel

end LogQuery.Toml
