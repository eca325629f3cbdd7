import LogQuery.Sql.Query

/-!
# Rules for sessions

Statements about the session itself: its transactions, settings, cursors and
prepared statements, and what it shows.
-/

namespace LogQuery.Sql

open Rule

namespace SessionRule

variable (d : Deeper)

/-! ## Transactions -/

/-- The end of a transaction, which may start another one. -/
def chain : Rule String := do
  let _ ← oneOf? ["TRANSACTION", "WORK"]
  if ← word "AND" then
    let no ← word "NO"
    expectWord "CHAIN"
    return if no then "" else " AND CHAIN"
  else return ""

def rollback : Rule String := do
  let s ← chain
  if ← word "TO" then
    let _ ← word "SAVEPOINT"
    return "ROLLBACK" ++ s ++ " TO SAVEPOINT " ++ (← name).text
  else return "ROLLBACK" ++ s

def mode? : Rule (Option String) := do
  if ← words ["ISOLATION", "LEVEL"] then
    let level ←
      if ← words ["READ", "UNCOMMITTED"] then pure "READ UNCOMMITTED"
      else if ← words ["READ", "COMMITTED"] then pure "READ COMMITTED"
      else if ← words ["REPEATABLE", "READ"] then pure "REPEATABLE READ"
      else oneOf ["SERIALIZABLE"]
    return some ("ISOLATION LEVEL " ++ level)
  else if ← words ["READ", "ONLY"] then return some "READ ONLY"
  else if ← words ["READ", "WRITE"] then return some "READ WRITE"
  else return none

/-- Modes of a transaction; the commas between them may be missing. -/
def modesFrom (required : Bool) : Nat → Rule (List String)
  | 0 => fail
  | n + 1 => do
    match ← mode? with
    | some m => return m :: (← modesFrom (← sign ",") n)
    | none => if required then fail else return []

/-- Modes of a transaction in their written form, with a blank before them. -/
def modes : Rule String := do
  let ms ← modesFrom false ((← get).length + 1)
  return if ms.isEmpty then "" else " " ++ commaed ms

def begin : Rule String := do
  let modifier ← flagOf ["DEFERRED", "IMMEDIATE", "EXCLUSIVE"]
  let _ ← oneOf? ["TRANSACTION", "WORK"]
  return "BEGIN" ++ modifier ++ " TRANSACTION" ++ (← modes)

/-! ## Settings -/

def setRole (scope : Option String) : Rule String := do
  expectWord "ROLE"
  let role ← if ← word "NONE" then pure "NONE" else do pure (← name).text
  return "SET" ++ scope.elim "" (" " ++ ·) ++ " ROLE " ++ role

def setNames : Rule String := do
  if ← word "DEFAULT" then return "SET NAMES DEFAULT"
  else
    let characters ← textOrWord
    let collation ← optional (← word "COLLATE") textOrWord
    return "SET NAMES " ++ characters ++ collation.elim "" (" COLLATE " ++ ·)

/-- What is set: one variable, or several in parentheses. -/
def targets : Rule (String × Bool) := do
  if ← words ["TIME", "ZONE"] then return ("TIMEZONE", false)
  else if ← atSign "(" then return (← nameList, true)
  else return (← dottedName, false)

/-- A setting without a sign between the variable and its value. -/
def setOther (variable_ : String) (isLocal plain : Bool) : Rule String := do
  if variable_.toUpper == "TIMEZONE" then
    return "SET " ++ wordIf isLocal "LOCAL" ++ "TIME ZONE " ++ (← d.text)
  else if variable_ == "CHARACTERISTICS" then
    expectWords ["AS", "TRANSACTION"]
    return "SET SESSION CHARACTERISTICS AS TRANSACTION" ++ (← modes)
  else if variable_ == "TRANSACTION" && plain then
    if ← word "SNAPSHOT" then return "SET TRANSACTION SNAPSHOT " ++ (← value).written
    else return "SET TRANSACTION" ++ (← modes)
  else fail

/-- A value of a variable. A query needs no parentheses there. -/
def setValue : Rule String := do
  if ← Deeper.atQuery then return "(" ++ (← d.queryText) ++ ")" else d.text

def setVariables (scope : Option String) : Rule String := do
  let start := "SET " ++ wordIf (scope == some "LOCAL") "LOCAL" ++
    (if scope == some "HIVEVAR" then "HIVEVAR:" else "")
  let (target, several) ← targets
  if target.toUpper == "NAMES" then setNames
  else if ← orElse (← sign "=") (word "TO") then
    let values := do return commaed (← separated (setValue d))
    let written ← if several then do pure ("(" ++ (← inParens values) ++ ")") else values
    return start ++ target ++ " = " ++ written
  else if several then fail
  else setOther d target (scope == some "LOCAL") scope.isNone

def setting : Rule String := do
  let scope ← oneOf? ["SESSION", "LOCAL", "HIVEVAR"]
  if scope == some "HIVEVAR" then
    expectSign ":"
    setVariables d scope
  else
    match ← attempt (setRole scope) with
    | some s => return s
    | none => setVariables d scope

/-! ## What is shown -/

/-- Which of several things are shown, with a blank before it. -/
def showFilter : Rule String := do
  match ← oneOf? ["LIKE", "ILIKE", "WHERE"] with
  | some "WHERE" => return " WHERE " ++ (← d.text)
  | some "LIKE" => return " LIKE " ++ quoted '\'' (← textOrWord)
  | some _ =>
    let s ← textOrWord
    return " ILIKE " ++ String.ofList (escapeQuotes '\'' false s.toList)
  | none =>
    match ← attempt textOrWord with
    | some s => return " " ++ quoted '\'' s
    | none => return ""

/-- The tables or views of a database. -/
def showOf (start : String) : Rule String := do
  let place ← oneOf? ["FROM", "IN"]
  let place ← optional place.isSome (do return " " ++ place.getD "" ++ " " ++ (← name).text)
  return start ++ place.getD "" ++ (← showFilter d)

/-- The columns of a table, whose database may stand after it. -/
def showColumns (start : String) : Rule String := do
  let _ ← oneOf ["FROM", "IN"]
  let table ← dottedName
  let database ← optional (← oneOf? ["FROM", "IN"]).isSome name
  return start ++ "COLUMNS FROM " ++ database.elim "" (·.text ++ ".") ++ table ++ (← showFilter d)

/-- Passes over tokens up to an equals sign and gives the names among them. -/
def shownNames : List Token → List Ident × List Token
  | [] => ([], [])
  | .sign "=" :: ts => ([], .sign "=" :: ts)
  | t :: ts => ((wordName? t).toList ++ (shownNames ts).1, (shownNames ts).2)

/-- A statement that shows something. -/
def display : Rule String := do
  let extended ← flag "EXTENDED"
  let full ← flag "FULL"
  let session ← flag "SESSION"
  let whole ← flag "GLOBAL"
  let start := "SHOW" ++ extended ++ full ++ " "
  if (← oneOf? ["COLUMNS", "FIELDS"]).isSome then showColumns d start
  else if ← word "TABLES" then showOf d (start ++ "TABLES")
  else if ← words ["MATERIALIZED", "VIEWS"] then showOf d "SHOW MATERIALIZED VIEWS"
  else if ← word "VIEWS" then showOf d "SHOW VIEWS"
  else if ← word "FUNCTIONS" then return "SHOW FUNCTIONS" ++ (← showFilter d)
  else if start != "SHOW " then fail
  else if ← word "CREATE" then
    let kind ← oneOf ["TABLE", "TRIGGER", "FUNCTION", "PROCEDURE", "EVENT", "VIEW"]
    return "SHOW CREATE " ++ kind ++ " " ++ (← dottedName)
  else
    match ← oneOf? ["VARIABLES", "STATUS", "COLLATION", "DATABASES", "SCHEMAS"] with
    | some k =>
      let reach := if k == "VARIABLES" || k == "STATUS" then whole ++ session else ""
      return "SHOW" ++ reach ++ " " ++ k ++ (← showFilter d)
    | none =>
      let (names, rest) := shownNames (← get)
      set rest
      return " ".intercalate ("SHOW" :: names.map Ident.text)

/-- An option in parentheses of a statement that explains. -/
def utilityOption : Rule String := do
  let i ← name
  if (← atSign ",") || (← atSign ")") then return i.text else return i.text ++ " " ++ (← d.text)

/-- How a statement is to be explained, with a blank before it. -/
def explainOptions (k : String) : Rule String := do
  if k == "EXPLAIN" && (← atSign "(") then
    return " (" ++ commaed (← inParens (separated (utilityOption d))) ++ ")"
  else if ← words ["QUERY", "PLAN"] then return " QUERY PLAN"
  else
    let analyze ← flag "ANALYZE"
    let verbose ← flag "VERBOSE"
    let format ← optional (← word "FORMAT") (oneOf ["TEXT", "GRAPHVIZ", "JSON"])
    return analyze ++ verbose ++ format.elim "" (" FORMAT " ++ ·)

/-- Explains a statement or describes a table. What explains is not explained. -/
def explain (k : String) (statement : Rule (Statement × String)) : Rule String := do
  let options ← explainOptions d k
  let nested := (← peek?).any fun t => ["EXPLAIN", "DESCRIBE", "DESC"].any (t.isKeyword ·)
  match ← attempt statement with
  | some (_, written) => if nested then fail else return k ++ options ++ " " ++ written
  | none =>
    let kind ← flagOf ["EXTENDED", "FORMATTED"]
    return k ++ kind ++ " " ++ (← dottedName)

/-! ## Cursors -/

def declare : Rule String := do
  let i ← name
  let binary ← flag "BINARY"
  let sensitive ← flagOf ["INSENSITIVE", "ASENSITIVE"]
  let noScroll ← flags ["NO", "SCROLL"]
  let scroll ← if noScroll.isEmpty then flag "SCROLL" else pure noScroll
  expectWord "CURSOR"
  let hold ←
    if ← word "WITH" then do expectWord "HOLD"; pure " WITH HOLD"
    else if ← word "WITHOUT" then do expectWord "HOLD"; pure " WITHOUT HOLD"
    else pure ""
  expectWord "FOR"
  return "DECLARE " ++ i.text ++ binary ++ sensitive ++ scroll ++ " CURSOR" ++ hold ++ " FOR " ++
    (← d.queryText)

def direction : Rule String := do
  match ← oneOf? ["NEXT", "PRIOR", "FIRST", "LAST", "ABSOLUTE", "RELATIVE", "FORWARD", "BACKWARD",
      "ALL"] with
  | some "ABSOLUTE" => return "ABSOLUTE " ++ (← amount)
  | some "RELATIVE" => return "RELATIVE " ++ (← amount)
  | some "FORWARD" => if ← word "ALL" then return "FORWARD ALL" else return "FORWARD " ++ (← amount)
  | some "BACKWARD" =>
    if ← word "ALL" then return "BACKWARD ALL" else return "BACKWARD " ++ (← amount)
  | some k => return k
  | none => amount

def fetch : Rule String := do
  let where_ ← direction
  let _ ← oneOf ["FROM", "IN"]
  let cursor ← name
  let target ← optional (← word "INTO") dottedName
  return "FETCH " ++ where_ ++ " IN " ++ cursor.text ++ target.elim "" (" INTO " ++ ·)

def close : Rule String := do
  if ← word "ALL" then return "CLOSE ALL" else return "CLOSE " ++ (← name).text

/-! ## Prepared statements -/

def prepare (statement : Rule (Statement × String)) : Rule String := do
  let i ← name
  let types ← optional (← atSign "(") (inParens (separated (TypeName.text d)))
  expectWord "AS"
  return "PREPARE " ++ i.text ++ " " ++
    types.elim "" (fun ts => "(" ++ commaed ts ++ ") ") ++ "AS " ++
    (← statement).2

def execute : Rule String := do
  let n ← dottedName
  let arguments ←
    if ← atSign "(" then do
      pure ("(" ++ commaed (← inParens (separatedBefore ")" d.text)) ++ ")")
    else
      match ← peek? with
      | none => pure ""
      | some t => if t.isSemicolon || t.isKeyword "USING" then pure "" else do pure (" " ++ (← d.textList))
  let using_ ← optional (← word "USING") d.textList
  return "EXECUTE " ++ n ++ arguments ++ using_.elim "" (" USING " ++ ·)

def deallocate : Rule String := do
  let k ← word "PREPARE"
  return "DEALLOCATE " ++ wordIf k "PREPARE" ++ (← name).text

/-! ## Others -/

def discard : Rule String := do
  match ← oneOf ["ALL", "PLANS", "SEQUENCES", "TEMP", "TEMPORARY"] with
  | "TEMPORARY" => return "DISCARD TEMP"
  | k => return "DISCARD " ++ k

/-- A value of a pragma: a number, a text or a placeholder. -/
def pragmaValue : Rule String := do
  match ← peek? with
  | some (.number ..) | some (.placeholder _) | some (.text .plain _) | some (.word _ (some '"'))
  | some (.sign _) => return (← value).written
  | _ => fail

def pragma : Rule String := do
  let n ← dottedName
  if ← atSign "(" then return "PRAGMA " ++ n ++ "(" ++ (← inParens pragmaValue) ++ ")"
  else if ← sign "=" then return "PRAGMA " ++ n ++ " = " ++ (← pragmaValue)
  else return "PRAGMA " ++ n

def assertion : Rule String := do
  let e ← d.text
  let message ← optional (← word "AS") d.text
  return "ASSERT " ++ e ++ message.elim "" (" AS " ++ ·)

end SessionRule

end LogQuery.Sql
