import LogQuery.Json.Value
import LogQuery.Decimal.Literal

/-!
# Reading JSON

`parse?` reads a whole text as one JSON value. It is strict: no trailing commas,
no lone surrogates, no raw control characters in strings, and values nested at
most 127 deep. Of members with one key the last counts.

A number with a fraction or an exponent, or outside 64 bits, is not rounded from
its exact decimal value: its leading digits are gathered into an unsigned 64-bit
integer, the digits that do not fit are dropped, and the double nearest to that
integer is multiplied or divided once by a power of ten. A number too large for a
double is refused; one too small is zero.

So a double read this way need not be the nearest one.
-/

namespace LogQuery.Json

open LogQuery.Decimal

def isSpace (c : Char) : Bool := c == ' ' || c == '\t' || c == '\n' || c == '\r'

def skipSpace (cs : List Char) : List Char := cs.dropWhile isSpace

/-! ## Numbers -/

/-- The parts of a number as written. -/
structure NumberText where
  negative : Bool
  whole : List Char
  fraction : Option (List Char)
  exponent : Option (Bool × List Char)

/-- Reads the fraction of a number, if there is one. -/
def readFraction : List Char → Option (Option (List Char) × List Char)
  | '.' :: cs =>
    let (ds, rest) := spanDigits cs
    if ds.isEmpty then none else some (some ds, rest)
  | cs => some (none, cs)

/-- Reads the exponent of a number, if there is one. -/
def readExponent : List Char → Option (Option (Bool × List Char) × List Char)
  | [] => some (none, [])
  | c :: cs =>
    if c == 'e' || c == 'E' then
      let (negative, rest) := spanSign cs
      let (ds, rest) := spanDigits rest
      if ds.isEmpty then none else some (some (negative, ds), rest)
    else some (none, c :: cs)

/-- Reads a number: no leading zeros, and digits on both sides of a point. -/
def readNumberText (cs : List Char) : Option (NumberText × List Char) :=
  let (negative, cs) := match cs with
    | '-' :: cs => (true, cs)
    | cs => (false, cs)
  let (whole, rest) := spanDigits cs
  if whole.isEmpty || (whole.head? == some '0' && whole.length > 1) then none
  else
    (readFraction rest).bind fun (fraction, rest) =>
      (readExponent rest).map fun (exponent, rest) => (⟨negative, whole, fraction, exponent⟩, rest)

/-- Gathers digits while the result fits 64 bits: the result and the digits left. -/
def gather : Nat → List Char → Nat × List Char
  | n, [] => (n, [])
  | n, d :: ds =>
    let n' := n * 10 + (d.toNat - 48)
    if n' < wordSize then gather n' ds else (n, d :: ds)

/-- Divides by `10 ^ 308` until the exponent is in reach of one division. Two
divisions take every 64-bit integer to zero. -/
def scaleDown : (fuel : Nat) → Binary64 → Int → Binary64 × Int
  | 0, x, e => (x, e)
  | fuel + 1, x, e =>
    if e < -308 && !x.isZero then scaleDown fuel (x.divMagnitude (Binary64.tenTo 308)) (e + 308)
    else (x, e)

/-- `significand * 10 ^ e` by one multiplication or division of doubles. -/
def scale? (significand : Nat) (e : Int) : Option Binary64 :=
  let x := (Binary64.roundRatio? significand 1).getD Binary64.zero
  if x.isZero then some x
  else if e > 308 then none
  else if e ≥ 0 then x.mulMagnitude? (Binary64.tenTo e.toNat)
  else
    let (y, f) := scaleDown 3 x e
    some (if y.isZero then y else y.divMagnitude (Binary64.tenTo (-f).toNat))

/-- The number a text stands for, unless it is too large. -/
def NumberText.value? (t : NumberText) : Option Number :=
  let (significand, dropped) := gather 0 t.whole
  let real? (significand : Nat) (e : Int) : Option Number :=
    (scale? significand e).map fun x => .real (if t.negative then x.neg else x)
  match t.fraction, t.exponent with
  | none, none =>
    if !dropped.isEmpty then real? significand dropped.length
    else if !t.negative then some (.integer significand)
    else if significand == 0 || significand > signBit then real? significand 0
    else some (.integer (-(significand : Int)))
  | fraction, exponent =>
    let (significand, e) := match fraction with
      | none => (significand, (dropped.length : Int))
      | some ds =>
        let (gathered, left) := gather significand ds
        (gathered, (dropped.length : Int) - (ds.length - left.length : Nat))
    let written : Int := match exponent with
      | none => 0
      | some (negative, ds) => if negative then -(ofDigits ds : Int) else ofDigits ds
    real? significand (e + written)

def readNumber (cs : List Char) : Option (Number × List Char) :=
  (readNumberText cs).bind fun (t, rest) => t.value?.map (·, rest)

/-! ## Strings -/

def hexValue? (c : Char) : Option Nat :=
  if c.isDigit then some (c.toNat - 48)
  else if 'a' ≤ c && c ≤ 'f' then some (c.toNat - 87)
  else if 'A' ≤ c && c ≤ 'F' then some (c.toNat - 55)
  else none

/-- The number four hexadecimal digits write. -/
def hex4? (a b c d : Char) : Option Nat := do
  let a ← hexValue? a
  let b ← hexValue? b
  let c ← hexValue? c
  let d ← hexValue? d
  return ((a * 16 + b) * 16 + c) * 16 + d

/-- The character a one-letter escape stands for. -/
def simpleEscape? (c : Char) : Option Char :=
  match c with
  | '"' | '\\' | '/' => some c
  | 'b' => some (Char.ofNat 8)
  | 'f' => some (Char.ofNat 12)
  | 'n' => some '\n'
  | 'r' => some '\r'
  | 't' => some '\t'
  | _ => none

def isHighSurrogate (n : Nat) : Bool := 0xD800 ≤ n && n ≤ 0xDBFF
def isLowSurrogate (n : Nat) : Bool := 0xDC00 ≤ n && n ≤ 0xDFFF

/-- Reads the rest of a string after its opening quote. -/
def readStringChars : List Char → Option (List Char × List Char)
  | [] => none
  | '"' :: rest => some ([], rest)
  | '\\' :: 'u' :: a :: b :: c :: d :: cs =>
    match hex4? a b c d with
    | none => none
    | some n =>
      if isLowSurrogate n then none
      else if isHighSurrogate n then
        match cs with
        | '\\' :: 'u' :: e :: f :: g :: h :: cs =>
          match hex4? e f g h with
          | none => none
          | some m =>
            if isLowSurrogate m then
              let code := (n - 0xD800) * 0x400 + (m - 0xDC00) + 0x10000
              (readStringChars cs).map fun (s, rest) => (Char.ofNat code :: s, rest)
            else none
        | _ => none
      else (readStringChars cs).map fun (s, rest) => (Char.ofNat n :: s, rest)
  | '\\' :: c :: cs =>
    match simpleEscape? c with
    | none => none
    | some e => (readStringChars cs).map fun (s, rest) => (e :: s, rest)
  | c :: cs =>
    if c.toNat < 32 || c == '\\' then none
    else (readStringChars cs).map fun (s, rest) => (c :: s, rest)

def readString (cs : List Char) : Option (String × List Char) :=
  match cs with
  | '"' :: cs => (readStringChars cs).map fun (s, rest) => (String.ofList s, rest)
  | _ => none

/-- What follows a word that stands at the front. -/
def afterWord? (word cs : List Char) : Option (List Char) :=
  if word.isPrefixOf cs then some (cs.drop word.length) else none

/-! ## Values -/

mutual

/-- Reads a value at the front. `depth` more levels of nesting are allowed. -/
def readValue : (fuel : Nat) → (depth : Nat) → List Char → Option (Value × List Char)
  | 0, _, _ => none
  | fuel + 1, depth, cs =>
    match cs with
    | '"' :: _ => (readString cs).map fun (s, rest) => (.string s, rest)
    | '[' :: cs =>
      match depth with
      | 0 => none
      | depth + 1 =>
        match skipSpace cs with
        | ']' :: rest => some (.array [], rest)
        | cs => (readItems fuel depth cs).map fun (vs, rest) => (.array vs, rest)
    | '{' :: cs =>
      match depth with
      | 0 => none
      | depth + 1 =>
        match skipSpace cs with
        | '}' :: rest => some (.object [], rest)
        | cs => (readMembers fuel depth cs).map fun (ms, rest) => (Value.ofMembers ms, rest)
    | 'n' :: _ => (afterWord? "null".toList cs).map (Value.null, ·)
    | 't' :: _ => (afterWord? "true".toList cs).map (Value.bool true, ·)
    | 'f' :: _ => (afterWord? "false".toList cs).map (Value.bool false, ·)
    | cs => (readNumber cs).map fun (n, rest) => (.number n, rest)

/-- Reads the items of an array up to its closing bracket. -/
def readItems : (fuel : Nat) → (depth : Nat) → List Char → Option (List Value × List Char)
  | 0, _, _ => none
  | fuel + 1, depth, cs =>
    match readValue fuel depth (skipSpace cs) with
    | none => none
    | some (v, rest) =>
      match skipSpace rest with
      | ']' :: rest => some ([v], rest)
      | ',' :: rest => (readItems fuel depth rest).map fun (vs, rest) => (v :: vs, rest)
      | _ => none

/-- Reads the members of an object up to its closing brace. -/
def readMembers : (fuel : Nat) → (depth : Nat) → List Char →
    Option (List (String × Value) × List Char)
  | 0, _, _ => none
  | fuel + 1, depth, cs =>
    match readString (skipSpace cs) with
    | none => none
    | some (k, rest) =>
      match skipSpace rest with
      | ':' :: rest =>
        match readValue fuel depth (skipSpace rest) with
        | none => none
        | some (v, rest) =>
          match skipSpace rest with
          | '}' :: rest => some ([(k, v)], rest)
          | ',' :: rest => (readMembers fuel depth rest).map fun (ms, rest) => ((k, v) :: ms, rest)
          | _ => none
      | _ => none

end

/-- The deepest nesting that is read. -/
def maxDepth : Nat := 127

/-- The value a whole text writes. -/
def parse? (cs : List Char) : Option Value :=
  match readValue (2 * cs.length + 2) maxDepth (skipSpace cs) with
  | some (v, rest) => if (skipSpace rest).isEmpty then some v else none
  | none => none

/-- The members of a text that writes an object, as written, repeated keys and all. -/
def members? (cs : List Char) : Option (List (String × Value)) :=
  match skipSpace cs with
  | '{' :: cs =>
    match skipSpace cs with
    | '}' :: rest => if (skipSpace rest).isEmpty then some [] else none
    | cs =>
      match readMembers (2 * cs.length + 2) (maxDepth - 1) cs with
      | some (ms, rest) => if (skipSpace rest).isEmpty then some ms else none
      | none => none
  | _ => none

end LogQuery.Json
