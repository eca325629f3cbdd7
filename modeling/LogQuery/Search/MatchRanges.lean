/-!
# Ranges of matching lines

The first pass of an ordered search keeps, for each file, the numbers of the
matching lines as inclusive intervals. Numbers are recorded in ascending order;
one that directly follows the last recorded number extends the last interval, so
intervals are separated by at least one line. Membership is a binary search on
the ends.

Nothing is proved here about numbers that are not recorded in ascending order.
-/

namespace LogQuery.Search

/-- Inclusive intervals of line numbers, in ascending order. -/
structure MatchRanges where
  ranges : Array (Nat × Nat) := #[]
deriving DecidableEq, Repr

namespace MatchRanges

def empty : MatchRanges := {}

def isEmpty (m : MatchRanges) : Bool := m.ranges.isEmpty

/-- The last recorded number. -/
def lastLine? (m : MatchRanges) : Option Nat := m.ranges.back?.map Prod.snd

/-- Records a line after the last recorded one. -/
def record (m : MatchRanges) (line : Nat) : MatchRanges :=
  match m.ranges.back? with
  | some (first, last) =>
    if line == last + 1 then ⟨m.ranges.pop.push (first, line)⟩ else ⟨m.ranges.push (line, line)⟩
  | none => ⟨m.ranges.push (line, line)⟩

/-- Records the lines of an ascending list. -/
def ofLines (lines : List Nat) : MatchRanges := lines.foldl record empty

/-- The first index in `[lo, hi)` whose interval does not end before `line`,
or `hi`; `fuel` halvings suffice when `hi - lo < 2 ^ fuel`. -/
def searchFrom (ranges : Array (Nat × Nat)) (line : Nat) : (fuel : Nat) → (lo hi : Nat) → Nat
  | 0, lo, _ => lo
  | fuel + 1, lo, hi =>
    if lo < hi then
      let mid := lo + (hi - lo) / 2
      match ranges[mid]? with
      | some (_, last) =>
        if last < line then searchFrom ranges line fuel (mid + 1) hi
        else searchFrom ranges line fuel lo mid
      | none => lo
    else lo

/-- The number of intervals that end before `line`. -/
def endingBefore (m : MatchRanges) (line : Nat) : Nat :=
  searchFrom m.ranges line (m.ranges.size.log2 + 1) 0 m.ranges.size

/-- Whether a line was recorded. -/
def contains (m : MatchRanges) (line : Nat) : Bool :=
  match m.ranges[m.endingBefore line]? with
  | some (first, _) => first ≤ line
  | none => false

example : (ofLines [1, 2, 3, 7, 9, 10]).ranges = #[(1, 3), (7, 7), (9, 10)] := by decide

end MatchRanges

end LogQuery.Search
