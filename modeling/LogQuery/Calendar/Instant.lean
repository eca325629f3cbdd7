/-!
# Days and instants

A day is the number of days since 1970-01-01 in the proleptic Gregorian calendar,
and an instant is a number of seconds since that day began, UTC, with nanoseconds.
A leap second is told by nanoseconds beyond one second: it belongs to the second
before it.
-/

namespace LogQuery.Calendar

structure Day where
  number : Int
deriving DecidableEq, Repr, Inhabited

structure Instant where
  second : Int
  nano : Nat
deriving DecidableEq, Repr, Inhabited

instance : Ord Day where
  compare a b := compare a.number b.number

instance : Ord Instant where
  compare a b := (compare a.second b.second).then (compare a.nano b.nano)

def secondsPerDay : Int := 86400

/-- The day an instant falls on. -/
def Instant.day (t : Instant) : Day := ⟨t.second / secondsPerDay⟩

/-- The second of a day. -/
def Instant.secondOfDay (t : Instant) : Nat := (t.second % secondsPerDay).toNat

/-- The instant a number of seconds into a day. -/
def Day.at (d : Day) (second : Nat) (nano : Nat) : Instant :=
  ⟨d.number * secondsPerDay + second, nano⟩

def Day.midnight (d : Day) : Instant := d.at 0 0

theorem day_at {d : Day} {second nano : Nat} (h : second < 86400) :
    (d.at second nano).day = d := by
  cases d with
  | mk n =>
    simp only [Day.at, Instant.day, secondsPerDay, Day.mk.injEq]
    omega

/-! ## Civil dates -/

/-- Year, month and day of the month. -/
structure Civil where
  year : Int
  month : Nat
  day : Nat
deriving DecidableEq, Repr

def isLeapYear (year : Int) : Bool :=
  year % 4 == 0 && (year % 100 != 0 || year % 400 == 0)

def daysInMonth (year : Int) (month : Nat) : Nat :=
  if month == 2 then if isLeapYear year then 29 else 28
  else if month == 4 || month == 6 || month == 9 || month == 11 then 30 else 31

/-- The years dates may lie in. -/
def firstYear : Int := -262143
def lastYear : Int := 262142

def Civil.isValid (c : Civil) : Bool :=
  firstYear ≤ c.year && c.year ≤ lastYear && 1 ≤ c.month && c.month ≤ 12 &&
    1 ≤ c.day && c.day ≤ daysInMonth c.year c.month

/-- Days from the first of March to the first of a month, counted from March. -/
def daysBeforeMonth (monthFromMarch : Int) : Int := (153 * monthFromMarch + 2) / 5

/-- The day of a civil date. Years are counted from March, so that the leap day
is the last one of its year. -/
def Civil.toDay (c : Civil) : Day :=
  let year := if c.month ≤ 2 then c.year - 1 else c.year
  let month : Int := (c.month + 9) % 12
  ⟨year * 365 + year / 4 - year / 100 + year / 400 + daysBeforeMonth month + c.day - 719469⟩

/-- The civil date of a day. -/
def Day.toCivil (d : Day) : Civil :=
  let n := d.number + 719468
  let era := n / 146097
  let dayOfEra := n % 146097
  let yearOfEra := (dayOfEra - dayOfEra / 1460 + dayOfEra / 36524 - dayOfEra / 146096) / 365
  let dayOfYear := dayOfEra - (365 * yearOfEra + yearOfEra / 4 - yearOfEra / 100)
  let month := (5 * dayOfYear + 2) / 153
  let day := dayOfYear - daysBeforeMonth month + 1
  let civilMonth := if month < 10 then month + 3 else month - 9
  ⟨yearOfEra + era * 400 + (if civilMonth ≤ 2 then 1 else 0), civilMonth.toNat, day.toNat⟩

/-- The day of a civil date that exists. -/
def Civil.toDay? (c : Civil) : Option Day := if c.isValid then some c.toDay else none

example : (⟨1970, 1, 1⟩ : Civil).toDay = ⟨0⟩ := by decide
example : (⟨0⟩ : Day).toCivil = ⟨1970, 1, 1⟩ := by decide
example : (⟨2020, 2, 29⟩ : Civil).toDay.toCivil = ⟨2020, 2, 29⟩ := by decide
example : (⟨-1, 12, 31⟩ : Civil).toDay.toCivil = ⟨-1, 12, 31⟩ := by decide

/-! ## Writing -/

/-- Decimal digits, filled up with zeros on the left. -/
def padded (width : Nat) (n : Nat) : String :=
  let digits := toString n
  String.ofList (List.replicate (width - digits.length) '0') ++ digits

/-- Four digits, and a sign where four digits do not suffice. -/
def yearText (year : Int) : String :=
  if 0 ≤ year && year ≤ 9999 then padded 4 year.toNat
  else (if year < 0 then "-" else "+") ++ padded 4 year.natAbs

def Civil.text (c : Civil) : String :=
  yearText c.year ++ "-" ++ padded 2 c.month ++ "-" ++ padded 2 c.day

/-- Nothing, milliseconds, microseconds or nanoseconds: the first that is exact. -/
def fractionText (nano : Nat) : String :=
  if nano == 0 then ""
  else if nano % 1000000 == 0 then "." ++ padded 3 (nano / 1000000)
  else if nano % 1000 == 0 then "." ++ padded 6 (nano / 1000)
  else "." ++ padded 9 nano

/-- Date and time with a `T` between them; a leap second is written `:60`. -/
def Instant.text (t : Instant) : String :=
  let s := t.secondOfDay
  let leap := t.nano ≥ 1000000000
  t.day.toCivil.text ++ "T" ++ padded 2 (s / 3600) ++ ":" ++ padded 2 (s / 60 % 60) ++ ":" ++
    padded 2 (if leap then 60 else s % 60) ++
    fractionText (if leap then t.nano - 1000000000 else t.nano)

end LogQuery.Calendar
