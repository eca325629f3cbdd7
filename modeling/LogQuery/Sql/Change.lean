import LogQuery.Sql.Select

/-!
# Rules for changes of rows

Statements that insert, update, delete or merge rows. They are read only to be
written in the message that refuses them.
-/

namespace LogQuery.Sql

open Rule

namespace ChangeRule

variable (d : Deeper)

/-- Tables in their written form. -/
def tables : Rule String := do
  return commaed ((← separated (TableRule.table d)).map (·.2))

def where? : Rule String := do
  if ← word "WHERE" then return " WHERE " ++ (← d.text) else return ""

def returning? : Rule String := do
  if ← word "RETURNING" then
    return " RETURNING " ++ commaed ((← separated (SelectRule.item d)).map (·.2))
  else return ""

/-! ## Deleting and updating -/

def delete : Rule String := do
  let k ← word "FROM"
  let from_ ← tables d
  let others ← optional (← word "USING") (tables d)
  let condition ← where? d
  let returning ← returning? d
  let order ← optional (← words ["ORDER", "BY"]) (Expression.orderKeys d)
  let limit ← if ← word "LIMIT" then optional (!(← word "ALL")) d.text else pure none
  return "DELETE " ++ wordIf k "FROM" ++ from_ ++ others.elim "" (" USING " ++ ·) ++ condition ++
    returning ++ order.elim "" (" ORDER BY " ++ ·) ++ limit.elim "" (" LIMIT " ++ ·)

def assignment : Rule String := do
  let target ← if ← atSign "(" then do pure ("(" ++ (← inParens dottedNames) ++ ")") else dottedName
  expectSign "="
  return target ++ " = " ++ (← d.text)

def assignments : Rule String := do return commaed (← separated (assignment d))

def update : Rule String := do
  let (_, table) ← TableRule.table d
  expectWord "SET"
  let assigned ← assignments d
  let from_ ← optional (← word "FROM") (TableRule.table d)
  let condition ← where? d
  return "UPDATE " ++ table ++ " SET " ++ assigned ++
    from_.elim "" (fun t => " FROM " ++ t.2) ++ condition ++ (← returning? d)

/-! ## Inserting -/

/-- What happens to rows that are there already. -/
def onConflict : Rule String := do
  if ← word "ON" then
    if ← words ["DUPLICATE", "KEY", "UPDATE"] then
      return " ON DUPLICATE KEY UPDATE " ++ (← assignments d)
    expectWord "CONFLICT"
    let target ←
      if ← words ["ON", "CONSTRAINT"] then do pure (" ON CONSTRAINT " ++ (← dottedName))
      else if ← atSign "(" then nameList
      else pure ""
    expectWord "DO"
    if ← word "NOTHING" then return " ON CONFLICT" ++ target ++ " DO NOTHING"
    expectWords ["UPDATE", "SET"]
    let assigned ← assignments d
    return " ON CONFLICT" ++ target ++ " DO UPDATE SET " ++ assigned ++ (← where? d)
  else return ""

/-- The columns and the rows that are inserted. -/
def insertSource : Rule String := do
  if ← words ["DEFAULT", "VALUES"] then return "DEFAULT VALUES"
  else
    let columns ← if ← atSign "(" then do pure ((← nameList) ++ " ") else pure ""
    let partition ← optional (← word "PARTITION") (inParens d.textList)
    return columns ++ partition.elim "" (fun s => "PARTITION (" ++ s ++ ") ") ++ (← d.queryText)

/-- A format of files. -/
def fileFormat : Rule String :=
  oneOf ["AVRO", "JSONFILE", "ORC", "PARQUET", "RCFILE", "SEQUENCEFILE", "TEXTFILE"]

/-- The rest of an insertion into a directory. -/
def insertFiles (overwrite place : String) : Rule String := do
  let path ← textOrWord
  let format ← optional (← words ["STORED", "AS"]) fileFormat
  return "INSERT" ++ overwrite ++ place ++ " DIRECTORY '" ++ path ++ "'" ++
    format.elim "" (" STORED AS " ++ ·) ++ " " ++ (← d.queryText)

/-- An insertion after its keyword, which may be one that replaces. The word LOCAL
matters for a directory only. -/
def insert (k : String) : Rule String := do
  let priority ← flagOf ["LOW_PRIORITY", "DELAYED", "HIGH_PRIORITY"]
  let ignore ← flag "IGNORE"
  let into ← flag "INTO"
  let overwrite ← if into.isEmpty then flag "OVERWRITE" else pure ""
  let place ← flag "LOCAL"
  if ← word "DIRECTORY" then insertFiles d overwrite place
  else
    let table ← flag "TABLE"
    let target ← dottedName
    let source ← insertSource d
    let label ← optional (← word "AS") (do return (← dottedName) ++ (← nameList?))
    return k ++ priority ++ ignore ++ overwrite ++ into ++ table ++ " " ++ target ++ " " ++ source ++
      label.elim "" (" AS " ++ ·) ++ (← onConflict d) ++ (← returning? d)

/-! ## Merging -/

/-- The rows a clause of a merge is about. -/
def mergeKind : Rule String := do
  let not ← word "NOT"
  expectWord "MATCHED"
  if not then
    if ← words ["BY", "SOURCE"] then return "NOT MATCHED BY SOURCE"
    else if ← words ["BY", "TARGET"] then return "NOT MATCHED BY TARGET"
    else return "NOT MATCHED"
  else return "MATCHED"

/-- What a clause of a merge does. Rows that are missing in the target are
inserted, all others are updated or deleted. -/
def mergeAction (kind : String) : Rule String := do
  let isMissing := kind == "NOT MATCHED" || kind == "NOT MATCHED BY TARGET"
  match ← oneOf ["UPDATE", "INSERT", "DELETE"] with
  | "INSERT" =>
    expect isMissing
    let columns ← if ← atSign "(" then do pure ((← nameList) ++ " ") else pure ""
    if ← word "ROW" then return "INSERT " ++ columns ++ "ROW"
    expectWord "VALUES"
    return "INSERT " ++ columns ++ (← TableRule.rows d)
  | "UPDATE" =>
    expect !isMissing
    expectWord "SET"
    return "UPDATE SET " ++ (← assignments d)
  | k =>
    expect !isMissing
    return k

def mergeClause? : Rule (Option String) := do
  match ← peek? with
  | none => return none
  | some t =>
    if t.isSemicolon then return none
    expectWord "WHEN"
    let kind ← mergeKind
    let condition ← optional (← word "AND") d.text
    expectWord "THEN"
    return some ("WHEN " ++ kind ++ condition.elim "" (" AND " ++ ·) ++ " THEN " ++
      (← mergeAction d kind))

def merge : Rule String := do
  let factor := TableRule.factorFrom d ((← get).length + 1)
  let into ← flag "INTO"
  let target ← factor
  expectWord "USING"
  let source ← factor
  expectWord "ON"
  let condition ← d.text
  let clauses ← repeated (mergeClause? d)
  return "MERGE" ++ into ++ " " ++ target.written ++ " USING " ++ source.written ++ " ON " ++
    condition ++ " " ++ " ".intercalate clauses

end ChangeRule

end LogQuery.Sql
