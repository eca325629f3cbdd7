import LogQuery.Compile.Leaf
import LogQuery.Plan

/-!
# Columns of a query

The columns decide what a query answers with. Every field among them must be
there in a record; a star asks for nothing. Of several counts the last one wins,
but a count of distinct values keeps other columns from making the query distinct.
-/

namespace LogQuery.Compile

open LogQuery.Query LogQuery.Sql LogQuery.Predicate LogQuery.Record

structure Columns where
  conditions : List FieldCondition
  projections : List Projection
  aggregation : Option Path
  kind : ResultKind
deriving DecidableEq, Repr

namespace Columns

def empty : Columns := ⟨[], [], none, .search⟩

/-- Asks for the values of a field. -/
def aggregate (cs : Columns) (p : Path) (kind : ResultKind) : Columns :=
  { cs with conditions := cs.conditions ++ [.present p], aggregation := some p, kind := kind }

/-- Asks for a field in the output. -/
def project (cs : Columns) (p : Path) (label : String) : Columns :=
  { cs with
    conditions := cs.conditions ++ [{ FieldCondition.present p with label := label }]
    projections := cs.projections ++ [⟨p, label⟩] }

/-- A column that is a field. -/
def addField (distinct : Bool) (cs : Columns) (p : Path) (label : Option String) : Columns :=
  if distinct && cs.kind != .countDistinct then cs.aggregate p .distinct
  else cs.project p (label.getD p.leaf)

/-- Whether a name is that of the one function there is. -/
def isCount (name : String) : Bool := lowerAscii name.toList == "count".toList

/-- The field that the argument of a call may name. -/
def argument? : List Expr → Option Expr
  | [.star] | [.qualifiedStar _] | [.named _ _ _] => none
  | [e] => some e
  | _ => none

/-- A column that is a call. -/
def addCall (q : Marked) (cs : Columns) (name : List Ident) (form : CallForm) (arguments : List Expr)
    (written : String) : Except Error Columns :=
  let function := q.restore (dotted name)
  let distinct := match form with
    | .list quantifier _ => quantifier == some .distinct
    | _ => false
  if !isCount function then .error (.unsupported (.function function))
  else
    match form, arguments, distinct with
    | .subquery _, _, _ => .error (.unsupported (fragment q written))
    | _, [], false | _, [.star], false => .ok { cs with kind := .count }
    | _, _, _ =>
      match argument? arguments with
      | some e => do
        return cs.aggregate (← field q e) (if distinct then .countDistinct else .count)
      | none => .error (.unsupported (fragment q written))

/-- A column that is an expression. -/
def addExpr (q : Marked) (distinct : Bool) (cs : Columns) (e : Expr) (label : Option String) :
    Except Error Columns :=
  match e with
  | .call name _ form arguments _ => addCall q cs name form arguments e.text
  | e => do return cs.addField distinct (← field q e) label

def addItem (q : Marked) (distinct : Bool) (cs : Columns) : SelectItem → Except Error Columns
  | .star => .ok cs
  | .column e => addExpr q distinct cs e none
  | .aliased e i => addExpr q distinct cs e (some (q.restore i.value))
  | .other written => .error (.unsupported (fragment q written))

/-- What the columns of a query ask for. -/
def ofItems (q : Marked) (distinct : Bool) (items : List SelectItem) : Except Error Columns :=
  items.foldlM (addItem q distinct) empty

end Columns

end LogQuery.Compile
