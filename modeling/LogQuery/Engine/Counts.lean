import LogQuery.Json.Printer
import LogQuery.Json.Value

/-!
# Counts of distinct values

How often each text occurs, in the order of the texts. Of the values of a field
strings, numbers and booleans count, by their texts.
-/

namespace LogQuery.Engine

open LogQuery.Json

/-- The sum of some numbers. -/
def total (ns : List Nat) : Nat := ns.foldr (· + ·) 0

/-- Texts in ascending order with how often they occur. -/
structure Counts where
  entries : List (String × Nat)
deriving DecidableEq, Repr

namespace Counts

def empty : Counts := ⟨[]⟩

def insert (key : String) (n : Nat) : List (String × Nat) → List (String × Nat)
  | [] => [(key, n)]
  | (k, m) :: rest =>
    if key == k then (k, m + n) :: rest
    else if key < k then (key, n) :: (k, m) :: rest
    else (k, m) :: insert key n rest

/-- Counts a text `n` times more. -/
def add (c : Counts) (key : String) (n : Nat) : Counts := ⟨insert key n c.entries⟩

/-- The sum of two counts. -/
def merge (a b : Counts) : Counts := b.entries.foldl (fun c e => c.add e.1 e.2) a

/-- How often a text occurs. -/
def get (c : Counts) (key : String) : Nat := (c.entries.lookup key).getD 0

def keys (c : Counts) : List String := c.entries.map Prod.fst

end Counts

/-- The text under which a value counts, if it does. -/
def distinctKey? : Value → Option String
  | .string s => some s
  | .number n => some (Value.number n).text
  | .bool b => some (Value.bool b).text
  | _ => none

end LogQuery.Engine
