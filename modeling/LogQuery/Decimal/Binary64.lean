import LogQuery.Decimal.Power

/-!
# Finite double-precision numbers

A finite IEEE 754 double is a sign and a 63-bit magnitude word. Magnitude words
are ordered like the numbers they stand for, so comparison is comparison of
integers (`key`), and rounding a non-negative ratio to nearest, ties to even, is
one division (`roundRatio?`): the quotient on the grid of the result's binade,
added to the words of the binades below, is the word.

Infinities and NaN are not values here; an operation that would overflow gives
nothing.
-/

namespace LogQuery.Decimal

/-- The first word that stands for no finite number. -/
def wordLimit : Nat := 2047 * hiddenBit

/-- A finite double: its sign and the bits below the sign. -/
structure Binary64 where
  negative : Bool
  word : Nat
  finite : word < wordLimit
deriving DecidableEq

namespace Binary64

instance : Repr Binary64 where
  reprPrec x _ := repr (x.negative, x.word)

def zero : Binary64 := ⟨false, 0, by decide⟩

instance : Inhabited Binary64 := ⟨zero⟩

/-- The 64 bits. -/
def bits (x : Binary64) : Nat := x.word + if x.negative then signBit else 0

/-- Orders numbers; the two zeros have one key. -/
def key (x : Binary64) : Int := if x.negative then -(x.word : Int) else x.word

def isZero (x : Binary64) : Bool := x.word == 0

def neg (x : Binary64) : Binary64 := { x with negative := !x.negative }

/-- The magnitude is `significand * 2 ^ exponent`. -/
def significand (x : Binary64) : Nat :=
  if x.word < hiddenBit then x.word else x.word % hiddenBit + hiddenBit

def exponent (x : Binary64) : Int :=
  if x.word < hiddenBit then -1074 else (x.word / hiddenBit : Nat) - 1075

/-- The magnitude as a ratio. -/
def ratio (x : Binary64) : Nat × Nat :=
  (x.significand * pow2 x.exponent.toNat, pow2 (-x.exponent).toNat)

/-- `num / den` rounded to an integer, ties to even. -/
def divNearest (num den : Nat) : Nat :=
  let q := num / den
  let r := num % den
  if 2 * r < den then q
  else if 2 * r > den then q + 1
  else q + q % 2

/-- The exponent of two of the largest power not above `num / den`. -/
def ratioLog2 (num den : Nat) : Int :=
  let d : Int := (num.log2 : Int) - den.log2
  if den * pow2 d.toNat ≤ num * pow2 (-d).toNat then d else d - 1

/-- The word nearest to `num / den`, ties to even, in the unbounded range. -/
def roundWord (num den : Nat) : Nat :=
  if num == 0 then 0
  else
    let e : Int := max (ratioLog2 num den - 52) (-1074)
    (e + 1074).toNat * hiddenBit + divNearest (num * pow2 (-e).toNat) (den * pow2 e.toNat)

/-- The double nearest to `num / den`, ties to even, unless that overflows. -/
def roundRatio? (num den : Nat) : Option Binary64 :=
  if h : roundWord num den < wordLimit then some ⟨false, roundWord num den, h⟩ else none

/-- The double nearest to an integer; the integers of a log or a query are far
below the overflow threshold. -/
def ofInt (n : Int) : Binary64 :=
  let x := (roundRatio? n.natAbs 1).getD zero
  if n < 0 then x.neg else x

/-- The double nearest to `digits * 10 ^ exponent`, unless that overflows. -/
def ofDecimal? (digits : Nat) (exponent : Int) : Option Binary64 :=
  if digits == 0 then some zero
  else if exponent > 400 then none
  else if exponent + digits.log2 < -400 then some zero
  else roundRatio? (digits * pow10 exponent.toNat) (pow10 (-exponent).toNat)

/-- The double nearest to the product of two magnitudes. -/
def mulMagnitude? (x y : Binary64) : Option Binary64 :=
  roundRatio? (x.ratio.1 * y.ratio.1) (x.ratio.2 * y.ratio.2)

/-- The double nearest to the quotient of two magnitudes; by zero, zero. -/
def divMagnitude (x y : Binary64) : Binary64 :=
  (roundRatio? (x.ratio.1 * y.ratio.2) (x.ratio.2 * y.ratio.1)).getD zero

/-- The double nearest to a power of ten with a small exponent. -/
def tenTo (n : Nat) : Binary64 := (ofDecimal? 1 n).getD zero

example : (ofInt 1).bits = 0x3FF0000000000000 := by decide +kernel
example : (ofInt 9007199254740993).bits = (ofInt 9007199254740992).bits := by decide +kernel
example : (ofDecimal? 5 (-324)).map bits = some 1 := by decide +kernel
example : (ofDecimal? 2 308).map bits = none := by decide +kernel

end Binary64

/-- Comparison of two doubles. -/
instance : Ord Binary64 where
  compare x y := compare x.key y.key

end LogQuery.Decimal
