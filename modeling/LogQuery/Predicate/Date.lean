import LogQuery.Predicate.Operator
import LogQuery.Calendar.Reading
import LogQuery.Json.Value

/-!
# Conditions on the date

A literal that is a date compares by days, one with a time by instants. Whole
days are judged too, to choose directories: a condition with a time keeps every
day that may hold an instant it accepts.
-/

namespace LogQuery.Predicate

open LogQuery.Calendar

/-- Which end of a range a condition bounds. -/
inductive Boundary
  | first | last
deriving DecidableEq, Repr

structure DateCondition where
  raw : String
  timestamp : Instant
  operator : Operator
  dateOnly : Bool
  boundary : Boundary
deriving DecidableEq, Repr

/-- Why a literal makes no condition on the date. -/
inductive DateError
  | operator (op : Operator) (raw : String)
  | literal (raw : String)
deriving DecidableEq, Repr

/-- The name of the date in queries, in any case. -/
def dateField : String := "date"

namespace DateCondition

def boundaryOf : Operator → Boundary
  | .compare .lt | .compare .le => .last
  | _ => .first

/-- The last second of a day. -/
def endOfDay : Nat := 86399

/-- The condition an operator and a literal make. -/
def parse (raw : String) (op : Operator) : Except DateError DateCondition :=
  match op with
  | .oneOf | .like | .ilike => .error (.operator op raw)
  | _ =>
    let cs := Text.trimChars raw.toList
    match day? cs with
    | some d =>
      let second := if op == .compare .le then endOfDay else 0
      .ok ⟨raw, d.at second 0, op, true, boundaryOf op⟩
    | none =>
      match timestamp? (String.ofList cs) with
      | some t => .ok ⟨raw, t, op, false, boundaryOf op⟩
      | none => .error (.literal raw)

def day (c : DateCondition) : Day := c.timestamp.day

/-- Whether a day stands to the day of the condition as its operator says. -/
def comparesDay (c : DateCondition) (d : Day) : Bool :=
  match c.operator with
  | .present => true
  | .compare cmp => cmp.holds (compare d c.day)
  | _ => false

/-- Whether an instant is accepted. -/
def acceptsInstant (c : DateCondition) (t : Instant) : Bool :=
  if c.dateOnly then c.comparesDay t.day
  else
    match c.operator with
    | .present => true
    | .compare cmp => cmp.holds (compare t c.timestamp)
    | _ => false

/-- Whether a day may hold an accepted instant. -/
def acceptsDay (c : DateCondition) (d : Day) : Bool :=
  if c.dateOnly then c.comparesDay d
  else
    match c.operator with
    | .present | .compare .ne => true
    | .compare .eq => compare d c.day == .eq
    | .compare .gt | .compare .ge => compare d c.day != .lt
    | .compare .lt | .compare .le => compare d c.day != .gt
    | _ => false

end DateCondition

def allAcceptInstant (cs : List DateCondition) (t : Instant) : Bool :=
  cs.all (·.acceptsInstant t)

def allAcceptDay (cs : List DateCondition) (d : Day) : Bool :=
  cs.all (·.acceptsDay d)

/-- The member of a record that holds its time. -/
def timeMember : String := "time"

/-- The instant of a record, if it has a readable one. -/
def recordInstant? : Json.Value → Option Instant
  | .object members =>
    match Json.member? timeMember members with
    | some (.string s) => timestamp? s
    | _ => none
  | _ => none

/-- Whether a record satisfies conditions on the date; one without a readable
time does, as its file was chosen by date. -/
def datesHold (cs : List DateCondition) (record : Json.Value) : Bool :=
  cs.isEmpty || (recordInstant? record).all (allAcceptInstant cs)

end LogQuery.Predicate
