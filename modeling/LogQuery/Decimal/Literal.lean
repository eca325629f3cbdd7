import LogQuery.Decimal.Binary64

/-!
# Numbers written in decimal

How a literal or a path segment is read as a number: an optional sign and digits
for an integer; a mantissa with at least one digit, a point anywhere in it and an
optional exponent for a fraction. Nothing may stand around the number. A number
that rounds to no finite double, and the names of infinity and NaN, are not read.
-/

namespace LogQuery.Decimal

/-- The number a list of digits writes. -/
def ofDigits (ds : List Char) : Nat := ds.foldl (fun n d => n * 10 + (d.toNat - 48)) 0

/-- Splits off the digits at the front. -/
def spanDigits (cs : List Char) : List Char × List Char := cs.span Char.isDigit

/-- Digits and nothing else, at least one. -/
def digits? (cs : List Char) : Option Nat :=
  if !cs.isEmpty && cs.all Char.isDigit then some (ofDigits cs) else none

/-- An optional sign: whether it is a minus, and what follows. -/
def spanSign : List Char → Bool × List Char
  | '-' :: cs => (true, cs)
  | '+' :: cs => (false, cs)
  | cs => (false, cs)

/-- An integer of 64 bits. -/
def int64? (cs : List Char) : Option Int :=
  let (negative, rest) := spanSign cs
  (digits? rest).bind fun n =>
    let i : Int := if negative then -(n : Int) else n
    if isInt64 i then some i else none

/-- A natural number of 64 bits; a plus may stand before it. -/
def index? (cs : List Char) : Option Nat :=
  let rest := match cs with
    | '+' :: cs => cs
    | cs => cs
  (digits? rest).bind fun n => if n < wordSize then some n else none

/-- The exponent part at the end of a number, if it is one. -/
def exponentPart? : List Char → Option Int
  | [] => some 0
  | c :: cs =>
    if c == 'e' || c == 'E' then
      let (negative, rest) := spanSign cs
      (digits? rest).map fun n => if negative then -(n : Int) else n
    else none

/-- A number with an optional fraction and exponent: whether it is negative, and the
magnitude as `digits * 10 ^ exponent`. -/
def scientific? (cs : List Char) : Option (Bool × Nat × Int) :=
  let (negative, rest) := spanSign cs
  let (whole, rest) := spanDigits rest
  let (fraction, rest) := match rest with
    | '.' :: rest => spanDigits rest
    | rest => ([], rest)
  if whole.isEmpty && fraction.isEmpty then none
  else
    (exponentPart? rest).map fun e =>
      (negative, ofDigits (whole ++ fraction), e - fraction.length)

/-- A finite number with an optional fraction and exponent. -/
def double? (cs : List Char) : Option Binary64 :=
  (scientific? cs).bind fun (negative, digits, exponent) =>
    (Binary64.ofDecimal? digits exponent).map fun x => if negative then x.neg else x

example : int64? "+5".toList = some 5 ∧ int64? "-".toList = none := by decide +kernel
example : (double? "5.".toList).isSome ∧ (double? ".5".toList).isSome ∧
    (double? ".".toList).isNone ∧ (double? "1e".toList).isNone := by decide +kernel

end LogQuery.Decimal
