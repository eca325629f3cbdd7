import LogQuery.Text.Utf8

/-!
# Line terminators

A line ends in a line feed or in a carriage return and a line feed. Stripping
takes off one terminator at most, and also a carriage return that stands alone at
the end.
-/

namespace LogQuery.Text

/-- Drops the last element if it is `x`. -/
def dropLastIf {α : Type} [BEq α] (x : α) (xs : List α) : List α :=
  if xs.getLast? == some x then xs.dropLast else xs

theorem mem_of_mem_dropLastIf {α : Type} [BEq α] {x y : α} {xs : List α}
    (h : y ∈ dropLastIf x xs) : y ∈ xs := by
  unfold dropLastIf at h
  split at h
  · exact List.dropLast_subset xs h
  · exact h

def lineFeed : UInt8 := 10
def carriageReturn : UInt8 := 13

/-- A text without the line terminator at its end, if there is one. -/
def stripTerminator (cs : List Char) : List Char := dropLastIf '\r' (dropLastIf '\n' cs)

/-- Bytes without the line terminator at their end, if there is one. -/
def stripTerminatorBytes (bs : Bytes) : Bytes := dropLastIf carriageReturn (dropLastIf lineFeed bs)

end LogQuery.Text
