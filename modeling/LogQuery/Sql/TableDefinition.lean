import LogQuery.Sql.Change

/-!
# Rules for tables and views that are defined

A table is defined by its columns and constraints, by another table or by a query,
and by how its rows are stored. The written form has its clauses in an order of its
own.
-/

namespace LogQuery.Sql

open Rule

namespace TableDefinition

variable (d : Deeper)

def columnDefinition : Rule String := ColumnRule.definition d (TypeName.text d)

/-! ## Constraints of a table -/

/-- The method of an index, with a blank before it. -/
def using? : Rule String := do
  if ← word "USING" then return " USING " ++ (← oneOf ["BTREE", "HASH"]) else return ""

/-- A name that may come before the columns of an index, with a blank before it. -/
def indexName? : Rule String := do return (← attempt name).elim "" fun i => " " ++ i.text

/-- A key over columns, after the words that say which. -/
def key : Rule String := do
  let label ← indexName?
  let method ← using?
  let columns ← nameList
  let options ← repeated (do
    let method ← using?
    if !method.isEmpty then return some method
    else optional (← word "COMMENT") (do return " COMMENT '" ++ (← textOrWord) ++ "'"))
  return label ++ method ++ " " ++ columns ++ String.join options ++ (← ColumnRule.checking)

def foreignKey : Rule String := do
  let columns ← nameList
  expectWord "REFERENCES"
  let table ← dottedName
  let referred ← nameList
  let actions ← ColumnRule.actions
  return "FOREIGN KEY " ++ columns ++ " REFERENCES " ++ table ++ referred ++ actions ++
    (← ColumnRule.checking)

/-- An index that is no constraint. -/
def index (k : String) : Rule String := do
  let label ← if ← atWord "USING" then pure "" else indexName?
  let method ← using?
  return k ++ label ++ method ++ " " ++ (← nameList)

/-- An index on the words or the places of columns. -/
def specialIndex (k : String) : Rule String := do
  let kind ← flagOf ["KEY", "INDEX"]
  let label ← indexName?
  return k ++ kind ++ label ++ " " ++ (← nameList)

/-- A constraint of a whole table or an index, if one comes next. Only constraints
may have a name. -/
def constraint? : Rule (Option String) := do
  let start ← ColumnRule.constraintName?
  let kinds := ["UNIQUE", "PRIMARY", "FOREIGN", "CHECK"]
  let others := if start.isSome then [] else ["INDEX", "KEY", "FULLTEXT", "SPATIAL"]
  match ← oneOf? (kinds ++ others) with
  | none => if start.isSome then fail else return none
  | some k =>
    let written ←
      match k with
      | "UNIQUE" => do
        let kind ← flagOf ["KEY", "INDEX"]
        pure ("UNIQUE" ++ kind ++ (← key))
      | "PRIMARY" => do
        expectWord "KEY"
        pure ("PRIMARY KEY" ++ (← key))
      | "FOREIGN" => do
        expectWord "KEY"
        foreignKey
      | "CHECK" => do pure ("CHECK (" ++ (← inParens d.text) ++ ")")
      | "INDEX" | "KEY" => index k
      | _ => specialIndex k
    return some (start.getD "" ++ written)

/-- A column or a constraint of a table; the flag tells a constraint. -/
def member : Rule (String × Bool) := do
  match ← constraint? d with
  | some s => return (s, true)
  | none =>
    expect ((← peek?).bind wordName?).isSome
    return (← columnDefinition d, false)

/-- The members of a table in their written form, columns first, with a blank before. -/
def members? : Rule (Option String) := do
  if ← atSign "(" then
    let members ← inParens (separatedBefore ")" (member d))
    if members.isEmpty then return none
    else
      let (constraints, columns) := members.partition (·.2)
      return some (" (" ++ commaed ((columns ++ constraints).map (·.1)) ++ ")")
  else return none

/-! ## Storage of rows -/

/-- The columns that rows are parted by. -/
def partitionedBy? : Rule String := do
  if ← words ["PARTITIONED", "BY"] then
    return " PARTITIONED BY (" ++ commaed (← inParens (separated (columnDefinition d))) ++ ")"
  else return ""

def clusteredBy? : Rule String := do
  if ← words ["CLUSTERED", "BY"] then
    let columns ← nameList
    let sorted ← optional (← words ["SORTED", "BY"]) (inParens (Expression.orderKeys d))
    expectWord "INTO"
    let count ← amount
    expectWord "BUCKETS"
    return " CLUSTERED BY " ++ columns ++ sorted.elim "" (fun s => " SORTED BY (" ++ s ++ ")") ++
      " INTO " ++ count ++ " BUCKETS"
  else return ""

/-- The words after each word that starts a delimiter. -/
def delimiters : List (String × List String) :=
  [("FIELDS", ["TERMINATED", "BY"]), ("COLLECTION", ["ITEMS", "TERMINATED", "BY"]),
    ("MAP", ["KEYS", "TERMINATED", "BY"]), ("LINES", ["TERMINATED", "BY"]),
    ("NULL", ["DEFINED", "AS"])]

/-- One delimiter of a row, with a blank before it. A first word alone is passed over. -/
def delimiter? : Rule (Option String) := do
  match ← oneOf? (delimiters.map (·.1)) with
  | none => return none
  | some k =>
    let ks := (delimiters.lookup k).getD []
    if ← words ks then
      let mark ← name
      let escape ← optional (← andThen (k == "FIELDS") (words ["ESCAPED", "BY"])) name
      return some (" " ++ " ".intercalate (k :: ks) ++ " " ++ mark.text ++
        escape.elim "" (fun i => " ESCAPED BY " ++ i.text))
    else return none

def rowFormat : Rule String := do
  expectWord "FORMAT"
  match ← oneOf? ["SERDE", "DELIMITED"] with
  | some "SERDE" => return " ROW FORMAT SERDE '" ++ (← textOrWord) ++ "'"
  | _ => return " ROW FORMAT DELIMITED" ++ String.join (← repeated delimiter?)

/-- What rows are stored as: files of a format, or a way to read and one to write. -/
inductive StoredAs
  | files (format : String)
  | pair (input output : String)

/-- How the rows of a table are stored; the last clause of each kind counts. -/
structure Storage where
  row : String := ""
  format : Option StoredAs := none
  properties : String := ""
  location : Option String := none

def Storage.formatText (s : Storage) : String :=
  match s.format with
  | none => ""
  | some (.files format) => " STORED AS " ++ format
  | some (.pair input output) => " STORED AS INPUTFORMAT " ++ input ++ " OUTPUTFORMAT " ++ output

def Storage.locationText (s : Storage) : String := s.location.elim "" fun l => " LOCATION '" ++ l ++ "'"

/-- The storage of a table that is kept outside, whose files are named last. -/
def Storage.outside (s : Storage) : String :=
  match s.format with
  | some (.files _) => s.row ++ s.properties ++ s.formatText ++ s.locationText
  | _ => s.row ++ s.formatText ++ s.properties ++ s.locationText

def Storage.inside (s : Storage) : String := s.row ++ s.formatText ++ s.properties ++ s.locationText

def storageFrom (s : Storage) : Nat → Rule Storage
  | 0 => return s
  | n + 1 => do
    match ← oneOf? ["ROW", "STORED", "LOCATION"] with
    | some "ROW" => storageFrom { s with row := ← rowFormat } n
    | some "STORED" =>
      expectWord "AS"
      if ← word "INPUTFORMAT" then
        let input ← d.text
        expectWord "OUTPUTFORMAT"
        storageFrom { s with format := some (.pair input (← d.text)) } n
      else storageFrom { s with format := some (.files (← ChangeRule.fileFormat)) } n
    | some _ => storageFrom { s with location := some (← textOrWord) } n
    | none =>
      match ← ColumnRule.propertiesAfter? d ["WITH", "SERDEPROPERTIES"] with
      | some ps => storageFrom { s with properties := " WITH SERDEPROPERTIES " ++ ps } n
      | none => return s

def storage : Rule Storage := do storageFrom d {} ((← get).length + 1)

/-! ## Clauses of a table -/

/-- The value of a word after an equals sign. -/
def wordAfterEquals : Rule String := do
  expectSign "="
  match wordName? (← next) with
  | some i => return i.value
  | none => fail

def engine? : Rule String := do
  if ← word "ENGINE" then
    let n ← wordAfterEquals
    let arguments ← if ← atSign "(" then nameList else pure ""
    return " ENGINE=" ++ n ++ arguments
  else return ""

def increment? : Rule String := do
  if ← word "AUTO_INCREMENT" then
    let _ ← sign "="
    return " AUTO_INCREMENT " ++ toString (← smallNat)
  else return ""

def orderBy? : Rule String := do
  if ← words ["ORDER", "BY"] then
    if ← atSign "(" then
      return " ORDER BY (" ++ commaed (← inParens (separatedBefore ")" d.text)) ++ ")"
    else return " ORDER BY " ++ (← d.text)
  else return ""

def onCommit? : Rule String := do
  if ← words ["ON", "COMMIT"] then
    if ← words ["DELETE", "ROWS"] then return " ON COMMIT DELETE ROWS"
    else if ← words ["PRESERVE", "ROWS"] then return " ON COMMIT PRESERVE ROWS"
    else
      expectWord "DROP"
      return " ON COMMIT DROP"
  else return ""

/-- A comment, before which an equals sign may be missing and is kept. -/
def comment? : Rule String := do
  if ← word "COMMENT" then
    let equals ← sign "="
    return " COMMENT " ++ wordIf equals "=" ++ "'" ++ (← plainText) ++ "'"
  else return ""

/-! ## Tables -/

/-- A table after its keyword and what stands before it. -/
def createTable (start : String) : Rule String := do
  let absent ← ifAbsent
  let table ← dottedName
  let cluster ← onCluster
  let model ← if (← oneOf? ["LIKE", "ILIKE"]).isSome then dottedNameOrNothing else pure none
  let clone ← if ← word "CLONE" then dottedNameOrNothing else pure none
  let members ← members? d
  let withoutId ← flags ["WITHOUT", "ROWID"]
  let partitioned ← partitionedBy? d
  let clustered ← clusteredBy? d
  let storage ← storage d
  let settings ← ColumnRule.propertiesAfter? d ["WITH"]
  let properties ← ColumnRule.propertiesAfter? d ["TBLPROPERTIES"]
  let engine ← engine?
  let increment ← increment?
  let primary ← optional (← words ["PRIMARY", "KEY"]) d.text
  let order ← orderBy? d
  let partition ← optional (← words ["PARTITION", "BY"]) d.text
  let clusters ← optional (← words ["CLUSTER", "BY"]) (separated name)
  let options ← ColumnRule.propertiesAfter? d ["OPTIONS"]
  let charset ← optional (← words ["DEFAULT", "CHARSET"]) wordAfterEquals
  let collation ← optional (← word "COLLATE") wordAfterEquals
  let commit ← onCommit?
  let strict ← flag "STRICT"
  let comment ← comment?
  let source ← optional (← word "AS") d.queryText
  let columns := members.getD
    (if source.isSome || model.isSome || clone.isSome then "" else " ()")
  return start ++ "TABLE" ++ absent ++ " " ++ table ++ cluster ++ columns ++ withoutId ++
    model.elim "" (" LIKE " ++ ·) ++ clone.elim "" (" CLONE " ++ ·) ++ partitioned ++ clustered ++
    storage.inside ++ properties.elim "" (" TBLPROPERTIES " ++ ·) ++
    settings.elim "" (" WITH " ++ ·) ++ engine ++ comment ++ increment ++
    primary.elim "" (" PRIMARY KEY " ++ ·) ++ order ++ partition.elim "" (" PARTITION BY " ++ ·) ++
    clusters.elim "" (fun is => " CLUSTER BY " ++ commaed (is.map Ident.text)) ++
    options.elim "" (" OPTIONS" ++ ·) ++ charset.elim "" (" DEFAULT CHARSET=" ++ ·) ++
    collation.elim "" (" COLLATE=" ++ ·) ++ commit ++ strict ++ source.elim "" (" AS " ++ ·)

/-- A table whose rows are kept outside. -/
def createExternalTable (start : String) : Rule String := do
  expectWord "TABLE"
  let absent ← ifAbsent
  let table ← dottedName
  let members ← members? d
  let partitioned ← partitionedBy? d
  let storage ← storage d
  let properties ← ColumnRule.propertiesAfter? d ["TBLPROPERTIES"]
  return start ++ "EXTERNAL TABLE" ++ absent ++ " " ++ table ++ members.getD " ()" ++ partitioned ++
    storage.outside ++ properties.elim "" (" TBLPROPERTIES " ++ ·)

/-- A table that a module stands for. -/
def createVirtualTable : Rule String := do
  expectWord "TABLE"
  let absent ← ifAbsent
  let table ← dottedName
  expectWord "USING"
  let source ← name
  return "CREATE VIRTUAL TABLE" ++ absent ++ " " ++ table ++ " USING " ++ source.text ++ (← nameList?)

/-! ## Views -/

def viewColumn : Rule String := do
  let i ← name
  if (← atWord "OPTIONS") || (← atWord "COMMENT") then
    return i.text ++ ((← ColumnRule.option? d).elim "" (" " ++ ·))
  else return i.text

/-- A view after the words before its keyword. Options outdo settings. -/
def createView (start : String) : Rule String := do
  let absent ← ifAbsent
  let view ← dottedName
  let columns ← if ← atSign "(" then inParens (separatedBefore ")" (viewColumn d)) else pure []
  let settings ← ColumnRule.propertiesAfter? d ["WITH"]
  let clusters ←
    if ← word "CLUSTER" then do
      expectWord "BY"
      if ← atSign "(" then pure (" CLUSTER BY " ++ (← nameList)) else pure ""
    else pure ""
  let options ← ColumnRule.propertiesAfter? d ["OPTIONS"]
  let target ← optional (← word "TO") dottedName
  let comment ← optional (← word "COMMENT") (do
    expectSign "="
    return " COMMENT = " ++ quoted '\'' (← plainText))
  expectWord "AS"
  let source ← d.queryText
  let unbound ← flags ["WITH", "NO", "SCHEMA", "BINDING"]
  let settings := if options.isSome then none else settings
  return start ++ "VIEW" ++ absent ++ " " ++ view ++ target.elim "" (" TO " ++ ·) ++
    (if columns.isEmpty then "" else " (" ++ commaed columns ++ ")") ++
    settings.elim "" (" WITH " ++ ·) ++ comment.getD "" ++ clusters ++
    options.elim "" (" OPTIONS" ++ ·) ++ " AS " ++ source ++ unbound

end TableDefinition

end LogQuery.Sql
