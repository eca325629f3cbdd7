import LogQuery.Sql.Query

/-!
# Rules for administration

Statements about privileges and about the server: its caches, logs, extensions
and files.
-/

namespace LogQuery.Sql

open Rule

namespace AdministrationRule

variable (d : Deeper)

/-! ## Privileges -/

def privilege : Rule String := do
  let k ← oneOf ["CONNECT", "CREATE", "DELETE", "EXECUTE", "INSERT", "REFERENCES", "SELECT",
    "TEMPORARY", "TRIGGER", "TRUNCATE", "UPDATE", "USAGE"]
  if ["INSERT", "REFERENCES", "SELECT", "UPDATE"].contains k then return k ++ (← nameList?)
  else return k

def privileges : Rule String := do
  if ← word "ALL" then return "ALL" ++ (← flag "PRIVILEGES")
  else return commaed (← separated privilege)

/-- What privileges are about. -/
def objects : Rule String := do
  if ← words ["ALL", "TABLES", "IN", "SCHEMA"] then
    return "ALL TABLES IN SCHEMA " ++ (← dottedNames)
  else if ← words ["ALL", "SEQUENCES", "IN", "SCHEMA"] then
    return "ALL SEQUENCES IN SCHEMA " ++ (← dottedNames)
  else
    match ← oneOf? ["SEQUENCE", "SCHEMA", "TABLE"] with
    | some "TABLE" | none => dottedNames
    | some k => return k ++ " " ++ (← dottedNames)

/-- Who has granted, with a blank before it. -/
def grantor? : Rule String := do
  if ← words ["GRANTED", "BY"] then return " GRANTED BY " ++ (← name).text else return ""

def grantees : Rule String := do return commaed ((← separated name).map Ident.text)

def grant : Rule String := do
  let what ← privileges
  expectWord "ON"
  let place ← objects
  expectWord "TO"
  let whom ← grantees
  let option ← flags ["WITH", "GRANT", "OPTION"]
  return "GRANT " ++ what ++ " ON " ++ place ++ " TO " ++ whom ++ option ++ (← grantor?)

def revoke : Rule String := do
  let what ← privileges
  expectWord "ON"
  let place ← objects
  expectWord "FROM"
  let from_ ← grantees
  let grantor ← grantor?
  let cascade ← word "CASCADE"
  let restrict ← word "RESTRICT"
  expect (!(cascade && restrict))
  return "REVOKE " ++ what ++ " ON " ++ place ++ " FROM " ++ from_ ++ grantor ++
    (if cascade then " CASCADE" else " RESTRICT")

/-! ## Tables and caches -/

/-- The clauses of an analysis, in any order. -/
structure Analysis where
  partition : Option String := none
  statistics : Bool := false
  noScan : Bool := false
  metadata : Bool := false
  columns : Option String := none

def analysisFrom : Nat → Analysis → Rule Analysis
  | 0, _ => fail
  | n + 1, a => do
    match ← oneOf? ["PARTITION", "NOSCAN", "FOR", "CACHE", "COMPUTE"] with
    | some "PARTITION" => analysisFrom n { a with partition := some (← inParens d.textList) }
    | some "NOSCAN" => analysisFrom n { a with noScan := true }
    | some "FOR" =>
      expectWord "COLUMNS"
      let columns ← attempt grantees
      analysisFrom n { a with columns := some (columns.elim "" (" " ++ ·)) }
    | some "CACHE" => expectWord "METADATA"; analysisFrom n { a with metadata := true }
    | some _ => expectWord "STATISTICS"; analysisFrom n { a with statistics := true }
    | none => return a

def analyze : Rule String := do
  expectWord "TABLE"
  let table ← dottedName
  let a ← analysisFrom d ((← get).length + 1) {}
  return "ANALYZE TABLE " ++ table ++ a.partition.elim "" (fun s => " PARTITION (" ++ s ++ ")") ++
    (if a.statistics then " COMPUTE STATISTICS" else "") ++ (if a.noScan then " NOSCAN" else "") ++
    (if a.metadata then " CACHE METADATA" else "") ++ a.columns.elim "" (" FOR COLUMNS" ++ ·)

def cache : Rule String := do
  let flag_ ← optional (!(← atWord "TABLE")) dottedName
  expectWord "TABLE"
  let table ← dottedName
  let options ← ColumnRule.propertiesAfter? d ["OPTIONS"]
  let source ←
    match ← peek? with
    | none => pure ""
    | some t =>
      expect (wordName? t).isSome
      let k ← flag "AS"
      pure (k ++ " " ++ (← d.queryText))
  return "CACHE " ++ flag_.elim "" (· ++ " ") ++ "TABLE " ++ table ++
    options.elim "" (" OPTIONS" ++ ·) ++ source

def uncache : Rule String := do
  expectWord "TABLE"
  return "UNCACHE TABLE" ++ (← ifExists) ++ " " ++ (← dottedName)

def repair : Rule String := do
  let k ← flag "REPAIR"
  expectWord "TABLE"
  let table ← dottedName
  let action ← attempt (do
    let k ← oneOf? ["ADD", "DROP", "SYNC"]
    expectWord "PARTITIONS"
    return k.elim "" fun k => " " ++ k ++ " PARTITIONS")
  return "MSCK" ++ k ++ " TABLE " ++ table ++ action.getD ""

def optimize : Rule String := do
  expectWord "TABLE"
  let table ← dottedName
  let cluster ← onCluster
  let partition ← optional (← word "PARTITION") (do
    if ← word "ID" then return "ID " ++ (← name).text else d.text)
  let final ← flag "FINAL"
  let duplicates ← optional (← word "DEDUPLICATE") (do
    if ← word "BY" then return " BY " ++ (← d.text) else return "")
  return "OPTIMIZE TABLE " ++ table ++ cluster ++ partition.elim "" (" PARTITION " ++ ·) ++ final ++
    duplicates.elim "" (" DEDUPLICATE" ++ ·)

/-! ## The server -/

/-- Which tables are flushed, and what for. -/
structure FlushedTables where
  tables : String := ""
  locked : String := ""
  exported : String := ""

def FlushedTables.written (f : FlushedTables) : String := f.tables ++ f.locked ++ f.exported

/-- The words after TABLES, in any order; the last ones of each kind count, and words
that say nothing are passed over. A token that is no word ends them and is read too. -/
def flushedTablesFrom (f : FlushedTables) : Nat → Rule FlushedTables
  | 0 => fail
  | n + 1 => do
    match ← get with
    | [] => return f
    | .word _ _ :: _ => flushedTablesFrom { f with tables := " " ++ (← dottedNames) } n
    | .keyword k _ :: ts =>
      set ts
      match k with
      | "WITH" =>
        let locked ← words ["READ", "LOCK"]
        flushedTablesFrom { f with locked := if locked then " WITH READ LOCK" else "" } n
      | "FOR" =>
        let exported ← word "EXPORT"
        flushedTablesFrom { f with exported := if exported then " FOR EXPORT" else "" } n
      | _ => flushedTablesFrom f n
    | _ :: ts => set ts; return f

def flushed : Rule String := do
  match ← oneOf ["BINARY", "ENGINE", "ERROR", "GENERAL", "HOSTS", "PRIVILEGES", "OPTIMIZER_COSTS",
      "RELAY", "SLOW", "STATUS", "USER_RESOURCES", "LOGS", "TABLES"] with
  | "RELAY" =>
    expectWord "LOGS"
    let channel ← optional (← words ["FOR", "CHANNEL"]) dottedName
    return "RELAY LOGS" ++ channel.elim "" (" FOR CHANNEL " ++ ·)
  | "TABLES" => return "TABLES" ++ (← flushedTablesFrom {} ((← get).length + 1)).written
  | k =>
    if ["BINARY", "ENGINE", "ERROR", "GENERAL", "SLOW"].contains k then
      expectWord "LOGS"
      return k ++ " LOGS"
    else return k

def flush : Rule String := do
  let place ← flagOf ["NO_WRITE_TO_BINLOG", "LOCAL"]
  return "FLUSH" ++ place ++ " " ++ (← flushed)

def kill : Rule String := do
  let kind ← oneOf? ["CONNECTION", "QUERY", "MUTATION"]
  return "KILL " ++ kind.elim "" (· ++ " ") ++ toString (← nat)

def attach : Rule String := do
  let k ← word "DATABASE"
  let file ← d.text
  expectWord "AS"
  return "ATTACH " ++ wordIf k "DATABASE" ++ file ++ " AS " ++ (← name).text

def detach : Rule String := do
  let k ← flag "DATABASE"
  return "DETACH" ++ k ++ (← ifExists) ++ " " ++ (← name).text

def unload : Rule String := do
  let s ← inParens d.queryText
  expectWord "TO"
  let target ← name
  let options ← ColumnRule.propertiesAfter? d ["WITH"]
  return "UNLOAD(" ++ s ++ ") TO " ++ target.text ++ options.elim "" (" WITH " ++ ·)

end AdministrationRule

end LogQuery.Sql
