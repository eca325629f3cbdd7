import LogQuery.Decimal.Shortest

/-!
# JSON values

A number is kept as an integer when it was written as one and fits 64 bits,
signed or unsigned, and as a double otherwise. The members of an object are kept
in ascending order of their keys, one member to a key: `insertMember` is the only
way members are added.
-/

namespace LogQuery.Json

open LogQuery.Decimal

inductive Number
  | integer (n : Int)
  | real (x : Binary64)
deriving DecidableEq, Repr

inductive Value
  | null
  | bool (b : Bool)
  | number (n : Number)
  | string (s : String)
  | array (items : List Value)
  | object (members : List (String × Value))
deriving Repr, Inhabited, BEq

/-- Adds a member, in place of an earlier one of the same key. -/
def insertMember (key : String) (v : Value) : List (String × Value) → List (String × Value)
  | [] => [(key, v)]
  | (k, w) :: rest =>
    if key == k then (key, v) :: rest
    else if key < k then (key, v) :: (k, w) :: rest
    else (k, w) :: insertMember key v rest

/-- The object with the given members; the last one of a key counts. -/
def Value.ofMembers (members : List (String × Value)) : Value :=
  .object (members.foldl (fun ms (k, v) => insertMember k v ms) [])

/-- The member of a key. -/
def member? (key : String) (members : List (String × Value)) : Option Value :=
  (members.find? fun (k, _) => k == key).map Prod.snd

/-- The double nearest to a number. -/
def Number.toDouble : Number → Binary64
  | integer n => Binary64.ofInt n
  | real x => x

end LogQuery.Json
