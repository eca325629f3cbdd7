import LogQuery.Decimal.Literal

/-!
# Double-precision numbers with the infinities

The operand of a condition that is not taken from a query may be any IEEE 754
double. An infinity lies beyond all finite numbers, and what is not a number stands
in no order to anything.
-/

namespace LogQuery.Decimal

inductive Extended
  | finite (x : Binary64)
  | infinite (negative : Bool)
  | notANumber (negative : Bool)
deriving DecidableEq, Repr

namespace Extended

/-- The 64 bits; of what is not a number, those of the quiet one without a payload. -/
def bits : Extended → Nat
  | finite x => x.bits
  | infinite negative => wordLimit + if negative then signBit else 0
  | notANumber negative => wordLimit + hiddenBit / 2 + if negative then signBit else 0

/-- How a finite number stands to any, if they stand in an order. -/
def orderOf? (x : Binary64) : Extended → Option Ordering
  | finite y => some (compare x y)
  | infinite negative => some (if negative then .gt else .lt)
  | notANumber _ => none

/-- The double a text writes: a number, which is infinite if it rounds to no finite
one, or a name of infinity or of what is not a number, in any case. -/
def ofChars? (cs : List Char) : Option Extended :=
  match scientific? cs with
  | some (negative, digits, exponent) =>
    some ((Binary64.ofDecimal? digits exponent).elim (infinite negative) fun x =>
      finite (if negative then x.neg else x))
  | none =>
    let (negative, name) := spanSign cs
    let name := String.ofList (name.map Char.toLower)
    if name == "inf" || name == "infinity" then some (infinite negative)
    else if name == "nan" then some (notANumber negative)
    else none

example : (ofChars? "1e400".toList).map bits = some 0x7FF0000000000000 ∧
    (ofChars? "-nan".toList).map bits = some 0xFFF8000000000000 := by decide +kernel

end Extended

end LogQuery.Decimal
