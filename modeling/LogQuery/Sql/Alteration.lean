import LogQuery.Sql.TableDefinition

/-!
# Rules for alterations

Statements that change what a table, a view, an index or a policy is.
-/

namespace LogQuery.Sql

open Rule

namespace AlterationRule

variable (d : Deeper)

/-! ## Policies -/

/-- Someone who owns something. -/
def owner : Rule String := do
  match ← oneOf? ["CURRENT_USER", "CURRENT_ROLE", "SESSION_USER"] with
  | some k => return k
  | none => return (← name).text

/-- Whom a policy is for and which rows it lets through. -/
def policyRest : Rule String := do
  let whom ← optional (← word "TO") (separated owner)
  let using_ ← optional (← word "USING") (inParens d.text)
  let check ← optional (← words ["WITH", "CHECK"]) (inParens d.text)
  return whom.elim "" (fun os => " TO " ++ commaed os) ++
    using_.elim "" (fun s => " USING (" ++ s ++ ")") ++
    check.elim "" (fun s => " WITH CHECK (" ++ s ++ ")")

def alterPolicy : Rule String := do
  let i ← name
  expectWord "ON"
  let table ← dottedName
  let start := "ALTER POLICY " ++ i.text ++ " ON " ++ table
  if ← word "RENAME" then
    expectWord "TO"
    return start ++ " RENAME TO " ++ (← name).text
  else return start ++ (← policyRest d)

/-! ## Columns -/

/-- The place of a column among the others, with a blank before it. The other column
is written without its quotes. -/
def place : Rule String := do
  if ← word "FIRST" then return " FIRST"
  else if ← word "AFTER" then return " AFTER " ++ (← name).value
  else return ""

/-- A type, options and a place that a column gets. -/
def newForm : Rule String := do
  let t ← TypeName.text d
  let options ← repeated (ColumnRule.option? d)
  return " " ++ t ++ String.join (options.map (" " ++ ·)) ++ (← place)

def columnChange : Rule String := do
  let _ ← word "COLUMN"
  let i ← name
  let change ←
    if ← words ["SET", "NOT", "NULL"] then pure "SET NOT NULL"
    else if ← words ["DROP", "NOT", "NULL"] then pure "DROP NOT NULL"
    else if ← words ["SET", "DEFAULT"] then do pure ("SET DEFAULT " ++ (← d.text))
    else if ← words ["DROP", "DEFAULT"] then pure "DROP DEFAULT"
    else if ← words ["SET", "DATA", "TYPE"] then do pure ("SET DATA TYPE " ++ (← TypeName.text d))
    else do
      expectWords ["ADD", "GENERATED"]
      let always ← flag "ALWAYS"
      let kind ← if always.isEmpty then flags ["BY", "DEFAULT"] else pure always
      expectWords ["AS", "IDENTITY"]
      let options ← optional (← atSign "(") (inParens ColumnRule.sequenceOptions)
      pure ("ADD GENERATED" ++ kind ++ " AS IDENTITY" ++ options.elim "" fun s => " (" ++ s ++ " )")
  return "ALTER COLUMN " ++ i.text ++ " " ++ change

def nameChange : Rule String := do
  if ← word "TO" then return "RENAME TO " ++ (← dottedName)
  else
    let _ ← word "COLUMN"
    let i ← name
    expectWord "TO"
    return "RENAME COLUMN " ++ i.text ++ " TO " ++ (← name).text

/-! ## Partitions and projections -/

/-- Expressions that tell a partition. -/
def partition : Rule String := do return "PARTITION (" ++ (← inParens d.textList) ++ ")"

/-- A part of a table, or a partition of it. -/
def part : Rule String := do
  let k ← oneOf ["PART", "PARTITION"]
  return k ++ " " ++ (← d.text)

/-- A part that is frozen or not, perhaps under a name. -/
def frozen (k : String) : Rule String := do
  let s ← part d
  let label ← optional (← word "WITH") (do
    expectWord "NAME"
    return " WITH NAME " ++ (← name).text)
  return k ++ " " ++ s ++ label.getD ""

/-- A query that a table keeps the rows of. -/
def newProjection : Rule String := do
  let absent ← ifAbsent
  let i ← name
  let source ← inParens (do
    expectWord "SELECT"
    let items := commaed ((← separated (SelectRule.item d)).map (·.2))
    let groups ← SelectRule.groupBy? d
    let order ← SelectRule.orderBy? d
    return "SELECT " ++ items ++ groups.getD "" ++ order.getD "")
  return "ADD PROJECTION" ++ absent ++ " " ++ i.text ++ " (" ++ source ++ ")"

/-- A projection whose rows are dropped or made. -/
def projectionRows (k : String) : Rule String := do
  let exists_ ← ifExists
  let i ← name
  let partition ← optional (← words ["IN", "PARTITION"]) name
  return k ++ " PROJECTION" ++ exists_ ++ " " ++ i.text ++
    partition.elim "" fun p => " IN PARTITION " ++ p.text

/-! ## Tables -/

def addition : Rule String := do
  match ← TableDefinition.constraint? d with
  | some s => return "ADD " ++ s
  | none =>
    if ← word "PROJECTION" then newProjection d
    else
      let before ← ifAbsent
      let partitions ← repeated (do optional (← word "PARTITION") (inParens d.textList))
      if !partitions.isEmpty then
        return "ADD" ++ before ++ String.join (partitions.map fun s => " PARTITION (" ++ s ++ ")")
      else
        let column ← flag "COLUMN"
        let after ← ifAbsent
        let absent := if after.isEmpty then before else after
        let definition ← TableDefinition.columnDefinition d
        return "ADD" ++ column ++ absent ++ " " ++ definition ++ (← place)

def removal : Rule String := do
  if ← words ["IF", "EXISTS", "PARTITION"] then
    return "DROP IF EXISTS PARTITION (" ++ (← inParens d.textList) ++ ")"
  else if ← words ["PRIMARY", "KEY"] then return "DROP PRIMARY KEY"
  else
    match ← oneOf? ["PARTITION", "CONSTRAINT", "PROJECTION", "COLUMN"] with
    | some "PARTITION" => return "DROP PARTITION (" ++ (← inParens d.textList) ++ ")"
    | k =>
      let exists_ ← ifExists
      let i ← name
      let cascade ← if k == some "PROJECTION" then pure "" else flag "CASCADE"
      return "DROP " ++ k.getD "COLUMN" ++ exists_ ++ " " ++ i.text ++ cascade

def switchingOff : Rule String := do
  if ← words ["ROW", "LEVEL", "SECURITY"] then return "DISABLE ROW LEVEL SECURITY"
  else
    let k ← oneOf ["RULE", "TRIGGER"]
    return "DISABLE " ++ k ++ " " ++ (← name).text

def switchingOn : Rule String := do
  if ← words ["ROW", "LEVEL", "SECURITY"] then return "ENABLE ROW LEVEL SECURITY"
  else
    let mode ← flagOf ["ALWAYS", "REPLICA"]
    let k ← oneOf ["RULE", "TRIGGER"]
    return "ENABLE" ++ mode ++ " " ++ k ++ " " ++ (← name).text

/-- One change of a table. -/
def alteration : Rule String := do
  if ← words ["SET", "TBLPROPERTIES"] then
    return "SET TBLPROPERTIES" ++ (← ColumnRule.properties d)
  match ← oneOf ["ADD", "RENAME", "DISABLE", "ENABLE", "CLEAR", "MATERIALIZE", "DROP", "PARTITION",
      "CHANGE", "MODIFY", "ALTER", "SWAP", "OWNER", "ATTACH", "DETACH", "FREEZE", "UNFREEZE"] with
  | "ADD" => addition d
  | "RENAME" => nameChange
  | "DISABLE" => switchingOff
  | "ENABLE" => switchingOn
  | "DROP" => removal d
  | "PARTITION" =>
    let old ← inParens d.textList
    expectWords ["RENAME", "TO", "PARTITION"]
    return "PARTITION (" ++ old ++ ") RENAME TO PARTITION (" ++ (← inParens d.textList) ++ ")"
  | "CHANGE" =>
    let _ ← word "COLUMN"
    let old ← name
    let new ← name
    return "CHANGE COLUMN " ++ old.text ++ " " ++ new.text ++ (← newForm d)
  | "MODIFY" =>
    let _ ← word "COLUMN"
    let i ← name
    return "MODIFY COLUMN " ++ i.text ++ (← newForm d)
  | "ALTER" => columnChange d
  | "SWAP" =>
    expectWord "WITH"
    return "SWAP WITH " ++ (← dottedName)
  | "OWNER" =>
    expectWord "TO"
    return "OWNER TO " ++ (← owner)
  | "ATTACH" => return "ATTACH " ++ (← part d)
  | "DETACH" => return "DETACH " ++ (← part d)
  | "FREEZE" => frozen d "FREEZE"
  | "UNFREEZE" => frozen d "UNFREEZE"
  | k =>
    expectWord "PROJECTION"
    projectionRows k

def alterTable : Rule String := do
  let exists_ ← ifExists
  let only ← flag "ONLY"
  let table ← dottedName
  let cluster ← onCluster
  let changes ← separated (alteration d)
  let set_ ← flags ["SET", "LOCATION"]
  let location ← if set_.isEmpty then flag "LOCATION" else pure set_
  let location ← optional (!location.isEmpty) (do return location ++ " " ++ (← name).text)
  return "ALTER TABLE" ++ exists_ ++ only ++ " " ++ table ++ cluster ++ " " ++ commaed changes ++
    location.getD ""

def alterView : Rule String := do
  let view ← dottedName
  let columns ← nameList?
  let settings ← ColumnRule.propertiesAfter? d ["WITH"]
  expectWord "AS"
  return "ALTER VIEW " ++ view ++ settings.elim "" (" WITH " ++ ·) ++ columns ++ " AS " ++
    (← d.queryText)

/-- An alteration after its keyword. -/
def rule : Rule String := do
  match ← oneOf ["TABLE", "VIEW", "INDEX", "POLICY"] with
  | "TABLE" => alterTable d
  | "VIEW" => alterView d
  | "POLICY" => alterPolicy d
  | k =>
    let index ← dottedName
    expectWords ["RENAME", "TO"]
    return "ALTER " ++ k ++ " " ++ index ++ " RENAME TO " ++ (← dottedName)

end AlterationRule

end LogQuery.Sql
