import LogQuery.Compile.Leaf
import LogQuery.Predicate.PatternSize

/-!
# Conditions of a query

WHERE is a conjunction of conditions on fields and on the date. BETWEEN is two
comparisons. That the date is there always holds, so it leaves no condition.
-/

namespace LogQuery.Compile

open LogQuery.Query LogQuery.Sql LogQuery.Predicate LogQuery.Record

/-- Conditions on fields and on the date, each in the order of the query. -/
structure Conditions where
  fields : List FieldCondition
  dates : List DateCondition
deriving DecidableEq, Repr

namespace Conditions

def empty : Conditions := ⟨[], []⟩

def append (a b : Conditions) : Conditions := ⟨a.fields ++ b.fields, a.dates ++ b.dates⟩

instance : Append Conditions := ⟨append⟩

def ofField (c : FieldCondition) : Conditions := ⟨[c], []⟩

/-- A condition on the date. -/
def ofDate (op : Operator) (literal : String) : Except Error Conditions :=
  match DateCondition.parse literal op with
  | .ok c => .ok ⟨[], [c]⟩
  | .error e => .error (.ofDate e)

/-- A comparison of a field, or of the date, with a literal. -/
def compare (p : Path) (c : Comparison) (literal : String) : Except Error Conditions :=
  if isDate p then ofDate (.compare c) literal
  else do return ofField (.on p (.compare c) (← typedOperand p c literal))

def present (p : Path) : Conditions := if isDate p then empty else ofField (.present p)

def like (p : Path) (ignoreCase : Bool) (pattern : String) : Except Error Conditions :=
  let op := if ignoreCase then .ilike else .like
  if isDate p then ofDate op pattern
  else
    match Pattern.ofSource? pattern ignoreCase with
    | some compiled => .ok (ofField (.on p op (.pattern compiled)))
    | none => .error (.literal pattern)

def oneOf (p : Path) (literals : List String) : Except Error Conditions :=
  if isDate p then .error (.unsupported (.dateSet p.text))
  else .ok (ofField (.on p .oneOf (setOperand literals)))

/-- The conditions that an expression is a conjunction of. -/
def ofExpr (q : Marked) : Expr → Except Error Conditions
  | .nested e => ofExpr q e
  | .binary .conjunction l r => do
    let a ← ofExpr q l
    let b ← ofExpr q r
    return a ++ b
  | .binary (.comparison c) l r => do
    let p ← field q l
    compare p c (← literal q r)
  | .between false e low high => do
    let p ← field q e
    let low ← literal q low
    let high ← literal q high
    let a ← compare p .ge low
    let b ← compare p .le high
    return a ++ b
  | .inList false e list => do
    let p ← field q e
    oneOf p (← list.mapM (literal q))
  | .like ignoreCase false _ e pattern _ => do
    let p ← field q e
    like p ignoreCase (← literal q pattern)
  | .isNull true e => do return present (← field q e)
  | e => .error (.unsupported (fragment q e.text))

end Conditions

end LogQuery.Compile
