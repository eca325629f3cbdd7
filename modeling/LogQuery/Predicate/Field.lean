import LogQuery.Decimal.Extended
import LogQuery.Predicate.Operator
import LogQuery.Predicate.Pattern
import LogQuery.Record.Path
import LogQuery.Record.Line

/-!
# Conditions on fields

A condition holds of a record when some value at its path satisfies it. Against
an integer or a fraction only numbers satisfy anything; integers of 64 signed bits
compare exactly with an integer, all other numbers as doubles. Against a string
the text of the value counts, whatever its type. An operator and an operand that
do not belong together are satisfied by nothing.
-/

namespace LogQuery.Predicate

open LogQuery.Json LogQuery.Record LogQuery.Decimal

/-- The right-hand side of a condition. -/
inductive Operand
  | none
  | int (n : Int)
  | real (x : Extended)
  | text (s : String)
  | intSet (ns : List Int)
  | textSet (ss : List String)
  | pattern (p : Pattern)
deriving DecidableEq, Repr

/-- The type a condition compares by. -/
inductive ValueKind
  | integer | float | string
deriving DecidableEq, Repr

def ValueKind.text : ValueKind → String
  | integer => "integer"
  | float => "float"
  | string => "string"

def Operand.kind : Operand → ValueKind
  | .int _ | .intSet _ => .integer
  | .real _ => .float
  | _ => .string

structure FieldCondition where
  path : Path
  label : String
  operator : Operator
  operand : Operand
deriving DecidableEq, Repr

namespace FieldCondition

/-- A condition under the default name of its path. -/
def on (path : Path) (operator : Operator) (operand : Operand) : FieldCondition :=
  ⟨path, path.leaf, operator, operand⟩

/-- The condition that a field is there. -/
def present (path : Path) : FieldCondition := on path .present .none

end FieldCondition

/-- How a number stands to an integer. -/
def compareToInt (observed : Number) (expected : Int) : Ordering :=
  match observed with
  | .integer n =>
    if isInt64 n then compare n expected else compare (Binary64.ofInt n) (Binary64.ofInt expected)
  | .real x => compare x (Binary64.ofInt expected)

/-- Whether an operator that compares holds of an order. -/
def Operator.holds (op : Operator) (o : Ordering) : Bool :=
  match op with
  | .compare c => c.holds o
  | _ => false

/-- Whether an operand that is there satisfies an operator with a value. -/
def Operand.accepts (operand : Operand) (op : Operator) (observed : Value) : Bool :=
  match operand, observed with
  | .none, _ => false
  | .int expected, .number n => op.holds (compareToInt n expected)
  | .int _, _ => false
  | .real expected, .number n => (Extended.orderOf? n.toDouble expected).any op.holds
  | .real _, _ => false
  | .intSet ns, .number n => ns.any fun m => compareToInt n m == .eq
  | .intSet _, _ => false
  | .text s, v =>
    match op with
    | .compare .eq => render v == s
    | .compare .ne => render v != s
    | _ => false
  | .textSet ss, v => ss.contains (render v)
  | .pattern p, v => p.isMatch (render v)

/-- Whether a value satisfies a condition. -/
def FieldCondition.accepts (c : FieldCondition) (observed : Value) : Bool :=
  c.operator == .present || c.operand.accepts c.operator observed

/-- Whether a record satisfies a condition. -/
def FieldCondition.holds (c : FieldCondition) (record : Value) : Bool :=
  (c.path.values record).any c.accepts

end LogQuery.Predicate
