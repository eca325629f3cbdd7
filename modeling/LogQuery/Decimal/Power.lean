/-!
# Powers and words

Powers of two and of ten, and the ranges of integers of 64 bits.
-/

namespace LogQuery.Decimal

/-- A power of two. -/
def pow2 (n : Nat) : Nat := Nat.pow 2 n

/-- A power of ten. -/
def pow10 (n : Nat) : Nat := Nat.pow 10 n

/-- The first natural number that needs more than 64 bits. -/
def wordSize : Nat := 18446744073709551616

/-- The first natural number that needs more than 63 bits. -/
def signBit : Nat := 9223372036854775808

/-- The first natural number that needs more than 52 bits. -/
def hiddenBit : Nat := 4503599627370496

/-- An integer of 64 bits with a sign. -/
def isInt64 (n : Int) : Bool := -9223372036854775808 ≤ n && n < 9223372036854775808

example : wordSize = pow2 64 ∧ signBit = pow2 63 ∧ hiddenBit = pow2 52 := by decide +kernel

end LogQuery.Decimal
