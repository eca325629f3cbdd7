import LogQuery.Decimal.Binary64

/-!
# Shortest decimal digits

The digits written for a double are the fewest that read back as the same
double; of several such digit strings of that length the nearest one is taken,
and of two equally near ones the even one. A double reads back from every number
between the midpoints to its neighbours, the midpoints included when its word is
even. If any number of a decimal grid lies there, one of the two grid points
next to the double does, so only those are tried.
-/

namespace LogQuery.Decimal

/-- `digits * 10 ^ exponent`. -/
structure Scientific where
  digits : Nat
  exponent : Int
deriving DecidableEq, Repr

namespace Scientific

/-- Moves trailing zeros of the digits into the exponent. -/
def normalizeFrom : (fuel : Nat) → Scientific → Scientific
  | 0, d => d
  | fuel + 1, d =>
    if d.digits != 0 && d.digits % 10 == 0 then
      normalizeFrom fuel ⟨d.digits / 10, d.exponent + 1⟩
    else d

def normalize (d : Scientific) : Scientific := normalizeFrom (d.digits.log2 + 1) d

/-- The digit characters. -/
def digitChars (d : Scientific) : List Char := Nat.toDigits 10 d.digits

/-- The exponent of the leading digit. -/
def magnitude (d : Scientific) : Int := d.exponent + d.digitChars.length - 1

end Scientific

/-- The largest `e` with `10 ^ e ≤ num / den`. -/
def ratioLog10 (num den : Nat) : Int :=
  let atLeast (e : Int) : Bool := den * pow10 e.toNat ≤ num * pow10 (-e).toNat
  let e := Binary64.ratioLog2 num den * 30103 / 100000
  if atLeast (e + 1) then e + 1 else if atLeast e then e else e - 1

/-- A positive double and the midpoints to its neighbours over one denominator. -/
structure Rounding where
  low : Nat
  value : Nat
  high : Nat
  den : Nat
  closed : Bool

/-- The numbers that read back as `x`. Below a power of two the grid is finer. -/
def Rounding.of (x : Binary64) : Rounding :=
  let m := x.significand
  let lower := if m == hiddenBit && x.word ≥ 2 * hiddenBit then 4 * m - 1 else 4 * m - 2
  let up := pow2 x.exponent.toNat
  ⟨lower * up, 4 * m * up, (4 * m + 2) * up, 4 * pow2 (-x.exponent).toNat, x.word % 2 == 0⟩

def Rounding.contains (r : Rounding) (num : Nat) (scale : Nat) : Bool :=
  if r.closed then r.low * scale ≤ num && num ≤ r.high * scale
  else r.low * scale < num && num < r.high * scale

/-- The grid point of exponent `grid` nearest to the value that reads back. -/
def Rounding.pointAt? (r : Rounding) (grid : Int) : Option Scientific :=
  let unit := r.den * pow10 grid.toNat
  let scale := pow10 (-grid).toNat
  let value := r.value * scale
  let below := value / unit
  let above := below + 1
  let fits (k : Nat) : Bool := r.contains (k * unit) scale
  let distanceBelow := value - below * unit
  let distanceAbove := above * unit - value
  let nearest :=
    if distanceBelow < distanceAbove then below
    else if distanceAbove < distanceBelow then above
    else if below % 2 == 0 then below else above
  if fits nearest then some ⟨nearest, grid⟩
  else if fits below then some ⟨below, grid⟩
  else if fits above then some ⟨above, grid⟩
  else none

/-- The shortest decimal that reads back as the magnitude of `x`; seventeen
digits always suffice. -/
def shortest (x : Binary64) : Scientific :=
  if x.isZero then ⟨0, 0⟩
  else
    let r := Rounding.of x
    let lead := ratioLog10 r.value r.den
    let found := (List.range 17).findSome? fun (n : Nat) => r.pointAt? (lead - n)
    (found.getD ⟨0, 0⟩).normalize

/-- A magnitude in plain notation when its leading digit has an exponent from -5
to 15, always with a fraction, and in scientific notation otherwise. -/
def magnitudeChars (x : Binary64) : List Char :=
  if x.isZero then "0.0".toList
  else
    let d := shortest x
    let ds := d.digitChars
    let e := d.magnitude
    if 0 ≤ e && e ≤ 15 then
      let whole := ds.take (e.toNat + 1)
      let fraction := ds.drop (e.toNat + 1)
      whole ++ List.replicate (e.toNat + 1 - whole.length) '0' ++ ['.'] ++
        (if fraction.isEmpty then ['0'] else fraction)
    else if -5 ≤ e && e < 0 then
      "0.".toList ++ List.replicate (-e - 1).toNat '0' ++ ds
    else
      let mantissa :=
        match ds with
        | [] => []
        | [c] => [c]
        | c :: cs => c :: '.' :: cs
      mantissa ++ ['e', if e < 0 then '-' else '+'] ++ Nat.toDigits 10 e.natAbs

/-- The text of a double: the shortest digits that read back. -/
def Binary64.chars (x : Binary64) : List Char :=
  if x.negative then '-' :: magnitudeChars x else magnitudeChars x

example : (Binary64.ofDecimal? 1 (-1)).map shortest = some ⟨1, -1⟩ := by decide +kernel
example : (Binary64.ofDecimal? 5 (-324)).map shortest = some ⟨5, -324⟩ := by decide +kernel
example : (Binary64.ofDecimal? 17976931348623157 292).map shortest =
    some ⟨17976931348623157, 292⟩ := by decide +kernel
example : (Binary64.ofDecimal? 1 16).map Binary64.chars = some "1e+16".toList := by decide +kernel

end LogQuery.Decimal
