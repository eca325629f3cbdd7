import LogQuery.Sql.Change

/-!
# Rules for queries

A query is a SELECT, or several with operators on sets between them, with clauses
before and after. A change of rows may stand in its place.
-/

namespace LogQuery.Sql

open Rule

namespace QueryRule

variable (d : Deeper)

/-- How tight an operator on sets binds. -/
def setPrecedence : String → Nat
  | "INTERSECT" => 20
  | _ => 10

def setQuantifier : Rule String := do
  if ← words ["DISTINCT", "BY", "NAME"] then return " DISTINCT BY NAME"
  else if ← words ["BY", "NAME"] then return " BY NAME"
  else if ← word "ALL" then return if ← words ["BY", "NAME"] then " ALL BY NAME" else " ALL"
  else if ← word "DISTINCT" then return " DISTINCT"
  else return ""

/-- A table by its name, perhaps with its schema. Three tokens are read for it,
whatever they are. -/
def tableName : Rule String := do
  let word? (t : Option Token) : Rule String :=
    match t.bind wordName? with
    | some i => pure i.value
    | none => fail
  let first ← next?
  let second ← next?
  let third ← next?
  let table ← word? first
  if second.any (·.isSign ".") then return "TABLE " ++ table ++ "." ++ (← word? third)
  else return "TABLE " ++ table

/-- A body without operators on sets. -/
def simpleBody : Rule (Written QueryBody) := do
  if ← word "SELECT" then
    let (s, written) ← SelectRule.rule d
    return (.select s, written)
  else
    let written ←
      if ← atSign "(" then do pure ("(" ++ (← inParens d.queryText) ++ ")")
      else if ← word "VALUES" then TableRule.rows d
      else do
        expectWord "TABLE"
        tableName
    return (.other written, written)

mutual

/-- A body whose operators bind tighter than a precedence. -/
def body (precedence : Nat) : Nat → Rule (Written QueryBody)
  | 0 => fail
  | n + 1 => do extendBody precedence n (← simpleBody d)

def extendBody (precedence : Nat) : Nat → Written QueryBody → Rule (Written QueryBody)
  | 0, left => return left
  | n + 1, left => do
    match ← get with
    | .keyword k _ :: ts =>
      if ["UNION", "EXCEPT", "INTERSECT"].contains k && setPrecedence k > precedence then
        set ts
        let quantifier ← setQuantifier
        let right ← body (setPrecedence k) n
        let written := left.2 ++ " " ++ k ++ quantifier ++ " " ++ right.2
        extendBody precedence n (.other written, written)
      else return left
    | _ => return left

end

/-- A query with a name, for use in the one that follows. -/
def commonTable : Rule String := do
  let i ← name
  let columns ← if ← word "AS" then pure "" else do
    let columns ← nameList
    expectWord "AS"
    pure (" " ++ columns)
  let s ← inParens d.queryText
  let source ← optional (← word "FROM") name
  return i.text ++ columns ++ " AS (" ++ s ++ ")" ++ source.elim "" (fun i => " FROM " ++ i.text)

def with? : Rule String := do
  if ← word "WITH" then
    let recursive ← word "RECURSIVE"
    return "WITH " ++ wordIf recursive "RECURSIVE" ++ commaed (← separated (commonTable d)) ++ " "
  else return ""

/-- How many rows to give and how many to pass over. -/
structure Extent where
  limit : Option String
  offset : Option String

def extentStep (x : Extent) : Rule Extent := do
  let limit ←
    if ← andThen x.limit.isNone (word "LIMIT") then
      if ← word "ALL" then pure none else do pure (some (← d.text))
    else pure x.limit
  let offset ←
    if ← andThen x.offset.isNone (word "OFFSET") then do
      let e ← d.text
      let unit ← oneOf? ["ROW", "ROWS"]
      pure (some (e ++ unit.elim "" (" " ++ ·)))
    else pure x.offset
  match limit, offset with
  | some first, none =>
    if ← sign "," then return ⟨some (← d.text), some first⟩ else return ⟨limit, offset⟩
  | _, _ => return ⟨limit, offset⟩

def fetch : Rule String := do
  let _ ← oneOf ["FIRST", "NEXT"]
  let amount ←
    match ← oneOf? ["ROW", "ROWS"] with
    | some _ => pure ""
    | none => do
      let l ← value
      let percent ← word "PERCENT"
      let _ ← oneOf ["ROW", "ROWS"]
      pure (" " ++ l.written ++ (if percent then " PERCENT" else ""))
  let ties ← if ← word "ONLY" then pure false else do expectWords ["WITH", "TIES"]; pure true
  return " FETCH FIRST" ++ amount ++ " ROWS " ++ (if ties then "WITH TIES" else "ONLY")

/-! ### What rows are for -/

/-- A text in parentheses. -/
def enclosedText : Rule String := inParens textOrWord

/-- The options of a format, after commas; the last text of ROOT counts. -/
def formatOptionsFrom (known : List String) : Nat → Rule (List String × Option String)
  | 0 => fail
  | n + 1 => do
    if ← sign "," then
      match ← oneOf? ("ROOT" :: known) with
      | some "ROOT" =>
        let root ← enclosedText
        let (options, later) ← formatOptionsFrom known n
        return (options, later.or (some root))
      | some k =>
        if k == "BINARY" then expectWord "BASE64"
        let (options, root) ← formatOptionsFrom known n
        return (k :: options, root)
      | none => formatOptionsFrom known n
    else return ([], none)

def formatOptions (known : List String) : Rule (List String × Option String) := do
  formatOptionsFrom known ((← get).length + 1)

def rootText (root : Option String) : String := root.elim "" fun s => ", ROOT('" ++ s ++ "')"

def forXml : Rule String := do
  let kind ← oneOf ["RAW", "AUTO", "EXPLICIT", "PATH"]
  let element ←
    if kind == "RAW" || kind == "PATH" then optional (← atSign "(") enclosedText else pure none
  let (options, root) ← formatOptions ["ELEMENTS", "BINARY", "TYPE"]
  let option (k written : String) := if options.contains k then ", " ++ written else ""
  return " FOR XML " ++ kind ++ element.elim "" (fun s => "('" ++ s ++ "')") ++
    option "BINARY" "BINARY BASE64" ++ option "TYPE" "TYPE" ++ rootText root ++
    option "ELEMENTS" "ELEMENTS"

def forJson : Rule String := do
  let kind ← oneOf ["AUTO", "PATH"]
  let (options, root) ← formatOptions ["INCLUDE_NULL_VALUES", "WITHOUT_ARRAY_WRAPPER"]
  let option (k : String) := if options.contains k then ", " ++ k else ""
  return " FOR JSON " ++ kind ++ rootText root ++ option "INCLUDE_NULL_VALUES" ++
    option "WITHOUT_ARRAY_WRAPPER"

def lock : Rule String := do
  let k ← oneOf ["UPDATE", "SHARE"]
  let table ← optional (← word "OF") dottedName
  let wait ←
    if ← word "NOWAIT" then pure " NOWAIT"
    else if ← words ["SKIP", "LOCKED"] then pure " SKIP LOCKED"
    else pure ""
  return " FOR " ++ k ++ table.elim "" (" OF " ++ ·) ++ wait

/-- Locks, which a format or the wish to browse ends. -/
def purposesFrom : Nat → Rule (List String)
  | 0 => fail
  | n + 1 => do
    if ← word "FOR" then
      match ← oneOf? ["XML", "JSON", "BROWSE"] with
      | some "XML" => return [← forXml]
      | some "JSON" => return [← forJson]
      | some _ => return [" FOR BROWSE"]
      | none =>
        let l ← lock
        return l :: (← purposesFrom n)
    else return []

/-- A query of rows and its written form. -/
def ofRows (start : String) : Rule (Written Query) := do
  let (b, written) ← body d 0 (2 * (← get).length + 2)
  let order ← SelectRule.orderBy? d
  let extent ← extentStep d (← extentStep d ⟨none, none⟩)
  let limitBy ← optional (← word "BY") d.textList
  let settings ← TableRule.settings?
  let fetch ← optional (← word "FETCH") fetch
  let purposes ← purposesFrom ((← get).length + 1)
  let format ← optional (← word "FORMAT") (do
    if ← word "NULL" then return "NULL" else return (← name).text)
  let text := start ++ written ++ order.getD "" ++ extent.limit.elim "" (" LIMIT " ++ ·) ++
    extent.offset.elim "" (" OFFSET " ++ ·) ++ limitBy.elim "" (" BY " ++ ·) ++
    settings.elim "" (" " ++ ·) ++ fetch.getD "" ++ String.join purposes ++
    format.elim "" (" FORMAT " ++ ·)
  return (⟨b, order.isSome || extent.limit.isSome || extent.offset.isSome⟩, text)

/-- A query and its written form. -/
def rule : Rule (Written Query) := do
  let start ← with? d
  let change ←
    if ← word "INSERT" then some <$> ChangeRule.insert d "INSERT"
    else if ← word "UPDATE" then some <$> ChangeRule.update d
    else pure none
  match change with
  | some written => return (⟨.other written, false⟩, start ++ written)
  | none => ofRows d start

end QueryRule

end LogQuery.Sql
