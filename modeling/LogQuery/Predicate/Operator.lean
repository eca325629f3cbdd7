/-!
# Operators of conditions

A condition asks that something is there, compares it, looks it up in a list, or
matches it with a pattern.
-/

namespace LogQuery.Predicate

/-- The six ways to compare two values of an order. -/
inductive Comparison
  | eq | ne | gt | ge | lt | le
deriving DecidableEq, Repr

/-- Whether a comparison holds of two values that stand in an order. -/
def Comparison.holds : Comparison → Ordering → Bool
  | eq, o => o == .eq
  | ne, o => o != .eq
  | gt, o => o == .gt
  | ge, o => o != .lt
  | lt, o => o == .lt
  | le, o => o != .gt

/-- What a condition asks of a value. -/
inductive Operator
  | present
  | compare (c : Comparison)
  | oneOf
  | like
  | ilike
deriving DecidableEq, Repr

def Comparison.text : Comparison → String
  | eq => "="
  | ne => "!="
  | gt => ">"
  | ge => ">="
  | lt => "<"
  | le => "<="

def Operator.text : Operator → String
  | .present => "exists"
  | .compare c => c.text
  | .oneOf => "in"
  | .like => "like"
  | .ilike => "ilike"

end LogQuery.Predicate
