import LogQuery.Json.Value
import LogQuery.Decimal.Literal
import LogQuery.Text.Split

/-!
# Field paths

A path names values inside a record by segments between dots. A segment is a key
of an object or an index of an array; `*` is every member or every item. So a
path has a list of values, in the order of sorted keys and of array positions,
and without `*` at most one.
-/

namespace LogQuery.Record

open LogQuery.Json

/-- A path as written. -/
structure Path where
  text : String
deriving DecidableEq, Repr, Inhabited

namespace Path

def segments (p : Path) : List String := Text.dotSegments p.text

/-- The last segment, the default name of a column. -/
def leaf (p : Path) : String := (p.segments.getLast?).getD p.text

end Path

/-- The segment that matches everything. -/
def anySegment : String := "*"

/-- The values below `v` along a list of segments. -/
def valuesAlong : List String → Value → List Value
  | [], v => [v]
  | s :: rest, .object members =>
    if s == anySegment then members.flatMap fun m => valuesAlong rest m.2
    else (member? s members).elim [] (valuesAlong rest)
  | s :: rest, .array items =>
    if s == anySegment then items.flatMap (valuesAlong rest)
    else ((Decimal.index? s.toList).bind (items[·]?)).elim [] (valuesAlong rest)
  | _ :: _, _ => []

/-- The values of a record at a path. -/
def Path.values (p : Path) (record : Value) : List Value := valuesAlong p.segments record

/-- The first value of a record at a path. -/
def Path.value? (p : Path) (record : Value) : Option Value := (p.values record).head?

end LogQuery.Record
