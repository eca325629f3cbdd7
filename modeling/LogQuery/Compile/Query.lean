import LogQuery.Compile.Columns
import LogQuery.Compile.Condition
import LogQuery.Sql.Statement
import LogQuery.Text.Blank

/-!
# Compiling a query

`Plan.ofSelect` makes a plan of a syntax tree and `Plan.ofQuery` of a text. Of
several faults in one tree the first counts, in the order HAVING, GROUP BY,
conditions, columns, sources.
-/

namespace LogQuery

open LogQuery.Compile LogQuery.Query LogQuery.Sql

namespace Compile

/-- Whether equal answers are dropped. -/
def distinct (q : Marked) : Duplicates → Except Error Bool
  | .kept => .ok false
  | .dropped => .ok true
  | d => .error (.unsupported (fragment q d.written))

/-- The source that a table names. -/
def source (q : Marked) (t : TableRef) : Except Error String :=
  if t.joined then .error (.unsupported .join)
  else
    match t.relation with
    | .table parts => .ok (".".intercalate (parts.map fun i => q.restore i.value))
    | .other written => .error (.unsupported (fragment q written))

/-- The sources of a query, each once. -/
def sourceNames (q : Marked) (ts : List TableRef) : Except Error (List String) := do
  if ts.isEmpty then throw .missingFrom
  return (← ts.mapM (source q)).eraseDups

end Compile

namespace Plan

/-- The plan of a syntax tree. -/
def ofSelect (q : Marked) (s : Select) : Except Error Plan := do
  if s.having then throw (.unsupported .having)
  if s.grouped then throw (.unsupported .groupBy)
  let conditions ← s.condition.elim (.ok .empty) (Conditions.ofExpr q)
  let columns ← Columns.ofItems q (← distinct q s.duplicates) s.items
  let sources ← sourceNames q s.tables
  return {
    sources := sources
    fields := conditions.fields ++ columns.conditions
    dates := conditions.dates
    projections := columns.projections
    aggregation := columns.aggregation
    kind := columns.kind }

/-- The plan of a statement. -/
def ofStatement (q : Marked) : Statement → Except Error Plan
  | .other written => .error (.notASelect (q.restore written))
  | .query ⟨body, arranged⟩ =>
    if arranged then .error (.unsupported .orderOrLimit)
    else
      match body with
      | .select s => ofSelect q s
      | .other written => .error (.unsupported (fragment q written))

/-- The plan of a query text. Blanks around it do not count. -/
def ofQuery (text : String) : Except Error Plan :=
  let q := Marked.ofChars (Text.trimChars text.toList)
  match parse? q.marked with
  | none => .error .grammar
  | some [] => .error .emptyQuery
  | some [s] => ofStatement q s
  | some ss => .error (.unsupported (.statements ss.length))

end Plan

end LogQuery
