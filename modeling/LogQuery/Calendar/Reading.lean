import LogQuery.Calendar.Instant
import LogQuery.Decimal.Literal
import LogQuery.Text.Blank

/-!
# Reading dates and times

A layout is a list of items. A number of a layout may have blanks before it and
need not be padded; a year may carry a sign, and then has any number of digits.
`timestamp?` tries RFC 3339 first, whose numbers are padded, and then a list of
layouts without an offset; a date alone is its midnight.
-/

namespace LogQuery.Calendar

open LogQuery.Text LogQuery.Decimal

/-! ## Layouts -/

inductive Unit
  | year | month | day | hour | minute | second
deriving DecidableEq, Repr

/-- `gap` is any run of blanks, none included; `fraction` is a point and digits, or nothing. -/
inductive Item
  | number (unit : Unit)
  | sign (c : Char)
  | gap
  | fraction
deriving DecidableEq, Repr

/-- What has been read of a date and time. -/
structure Fields where
  year : Int := 0
  month : Nat := 1
  day : Nat := 1
  hour : Nat := 0
  minute : Nat := 0
  second : Nat := 0
  nano : Nat := 0
deriving DecidableEq, Repr

/-- Reads from `least` to `most` digits. -/
def digitsBetween? (least most : Nat) (cs : List Char) : Option (Nat × List Char) :=
  let ds := (cs.take most).takeWhile Char.isDigit
  if ds.length < least then none else some (ofDigits ds, cs.drop ds.length)

/-- A number within 64 bits of any length. -/
def longNumber? (cs : List Char) : Option (Nat × List Char) :=
  (digitsBetween? 1 cs.length cs).filter fun (n, _) => n < signBit

/-- Four digits at most, or a sign and any number of digits. -/
def year? (cs : List Char) : Option (Int × List Char) :=
  match cs with
  | '-' :: cs => (longNumber? cs).map fun (n, rest) => (-(n : Int), rest)
  | '+' :: cs => (longNumber? cs).map fun (n, rest) => ((n : Int), rest)
  | cs => (digitsBetween? 1 4 cs).map fun (n, rest) => ((n : Int), rest)

def inRange (least most n : Nat) : Option Nat := if least ≤ n && n ≤ most then some n else none

/-- Sets a field, unless the number is out of its range. -/
def Fields.set? (f : Fields) (unit : Unit) (n : Nat) : Option Fields :=
  match unit with
  | .year => some { f with year := n }
  | .month => (inRange 1 12 n).map fun n => { f with month := n }
  | .day => (inRange 1 31 n).map fun n => { f with day := n }
  | .hour => (inRange 0 23 n).map fun n => { f with hour := n }
  | .minute => (inRange 0 59 n).map fun n => { f with minute := n }
  | .second => (inRange 0 60 n).map fun n => { f with second := n }

/-- The nanoseconds digits after a point write; digits beyond the ninth are passed over. -/
def nanos? (cs : List Char) : Option (Nat × List Char) :=
  (digitsBetween? 1 9 cs).map fun (n, rest) =>
    let read := cs.length - rest.length
    (n * pow10 (9 - read), rest.dropWhile Char.isDigit)

/-- Reads one item. -/
def Item.read? (f : Fields) (cs : List Char) : Item → Option (Fields × List Char)
  | .number .year => (year? (cs.dropWhile isBlank)).map fun (y, rest) => ({ f with year := y }, rest)
  | .number unit =>
    (digitsBetween? 1 2 (cs.dropWhile isBlank)).bind fun (n, rest) =>
      (f.set? unit n).map (·, rest)
  | .sign c =>
    match cs with
    | d :: rest => if d == c then some (f, rest) else none
    | [] => none
  | .gap => some (f, cs.dropWhile isBlank)
  | .fraction =>
    match cs with
    | '.' :: rest => (nanos? rest).map fun (n, rest) => ({ f with nano := n }, rest)
    | cs => some (f, cs)

/-- Reads a whole text by a layout. -/
def readLayout? : List Item → Fields → List Char → Option Fields
  | [], f, cs => if cs.isEmpty then some f else none
  | i :: is, f, cs => (i.read? f cs).bind fun (f, rest) => readLayout? is f rest

def Fields.toDay? (f : Fields) : Option Day := (Civil.mk f.year f.month f.day).toDay?

/-- The instant of a date and time without an offset; second 60 is a leap second. -/
def Fields.toInstant? (f : Fields) : Option Instant :=
  f.toDay?.map fun d =>
    let leap := f.second == 60
    d.at (f.hour * 3600 + f.minute * 60 + (if leap then 59 else f.second))
      (f.nano + if leap then 1000000000 else 0)

def dateItems : List Item :=
  [.number .year, .sign '-', .number .month, .sign '-', .number .day]

def timeItems (sep : Char) : List Item :=
  [.number .hour, .sign sep, .number .minute, .sign sep, .number .second]

/-- A date and nothing else: `2020-01-31`. -/
def day? (cs : List Char) : Option Day :=
  (readLayout? dateItems {} cs).bind Fields.toDay?

/-- The layouts of a date and time, in the order in which they are tried. -/
def timestampLayouts : List (List Item) :=
  [dateItems ++ [.sign 'T'] ++ timeItems ':' ++ [.fraction],
   dateItems ++ [.gap] ++ timeItems ':' ++ [.fraction],
   dateItems ++ [.sign 'T', .number .hour, .sign ':', .number .minute]]

/-- The layout of the names of log files: `2020-01-31T10-30-00`. -/
def fileNameLayout : List Item := dateItems ++ [.sign 'T'] ++ timeItems '-'

def instant? (layout : List Item) (cs : List Char) : Option Instant :=
  (readLayout? layout {} cs).bind Fields.toInstant?

/-! ## RFC 3339 -/

/-- Exactly so many digits. -/
def fixed? (count : Nat) (cs : List Char) : Option (Nat × List Char) :=
  digitsBetween? count count cs

def expect? (c : Char) : List Char → Option (List Char)
  | d :: rest => if d == c then some rest else none
  | [] => none

/-- The offset from UTC in seconds: `Z`, or a sign, hours and minutes. -/
def offset? : List Char → Option (Int × List Char)
  | [] => none
  | c :: cs =>
    if c == 'Z' || c == 'z' then some (0, cs)
    else if c == '+' || c == '-' || c.toNat == 0x2212 then do
      let (hours, rest) ← fixed? 2 cs
      let rest ← expect? ':' rest
      let (minutes, rest) ← fixed? 2 rest
      let seconds : Int := hours * 3600 + minutes * 60
      if hours > 23 || minutes > 59 then none
      else some (if c == '+' then seconds else -seconds, rest)
    else none

def isDateTimeSeparator (c : Char) : Bool := c == 'T' || c == 't' || c == ' '

/-- An RFC 3339 timestamp, brought to UTC. -/
def rfc3339? (cs : List Char) : Option Instant := do
  let (year, rest) ← fixed? 4 cs
  let rest ← expect? '-' rest
  let (month, rest) ← fixed? 2 rest
  let rest ← expect? '-' rest
  let (day, rest) ← fixed? 2 rest
  let rest ← match rest with
    | c :: rest => if isDateTimeSeparator c then some rest else none
    | [] => none
  let (hour, rest) ← fixed? 2 rest
  let rest ← expect? ':' rest
  let (minute, rest) ← fixed? 2 rest
  let rest ← expect? ':' rest
  let (second, rest) ← fixed? 2 rest
  let (nano, rest) ← match rest with
    | '.' :: rest => nanos? rest
    | rest => some (0, rest)
  let (offset, rest) ← offset? rest
  if !rest.isEmpty then none
  let f ← Fields.set? { year := (year : Int), nano := nano } .month month
  let f ← f.set? .day day
  let f ← f.set? .hour hour
  let f ← f.set? .minute minute
  let f ← f.set? .second second
  let t ← f.toInstant?
  return { t with second := t.second - offset }

/-- A timestamp as found in records and queries, blanks around it aside. -/
def timestamp? (s : String) : Option Instant :=
  let cs := trimChars s.toList
  (rfc3339? cs).or
    ((timestampLayouts.findSome? fun layout => instant? layout cs).or ((day? cs).map Day.midnight))

end LogQuery.Calendar
