import LogQuery.Sql.Table

/-!
# Rules for SELECT

The columns of a query and the clauses that choose, group and order its rows.
-/

namespace LogQuery.Sql

open Rule

namespace SelectRule

variable (d : Deeper)

/-! ## Columns -/

/-- What may follow a star, in its written form. -/
def starOptions : Rule String := do
  let pattern ← optional (← word "ILIKE") plainText
  let excluded ← optional (← andThen pattern.isNone (word "EXCLUDE")) (do
    if ← atSign "(" then nameList else return (← name).text)
  let except ← optional (← word "EXCEPT") (do
    if ← atSign "(" then nameList else return "(" ++ (← name).text ++ ")")
  let replaced ← optional (← word "REPLACE") (inParens (separated (do
    let e ← d.text
    let k ← flag "AS"
    return e ++ k ++ " " ++ (← name).text)))
  let newName : Rule String := do
    let i ← name
    expectWord "AS"
    return i.text ++ " AS " ++ (← name).text
  let renamed ← optional (← word "RENAME") (do
    if ← atSign "(" then return "(" ++ commaed (← inParens (separated newName)) ++ ")"
    else newName)
  return pattern.elim "" (fun s => " ILIKE " ++ quoted '\'' s) ++
    excluded.elim "" (" EXCLUDE " ++ ·) ++ except.elim "" (" EXCEPT " ++ ·) ++
    replaced.elim "" (fun es => " REPLACE (" ++ commaed es ++ ")") ++
    renamed.elim "" (" RENAME " ++ ·)

/-- A column. The word FROM is none, so that a missing column is noticed. -/
def item : Rule (Written SelectItem) := do
  match ← Expression.orStar d with
  | .star => return (.star, "*" ++ (← starOptions d))
  | .qualifiedStar parts =>
    let written := (Expr.qualifiedStar parts).text ++ (← starOptions d)
    return (.other written, written)
  | e =>
    match e with
    | .ident ⟨s, none⟩ => if s.toLower == "from" then fail
    | _ => pure ()
    match ← aliasName? notColumnAliases with
    | some i => return (.aliased e i, e.text ++ " AS " ++ i.text)
    | none => return (.column e, e.text)

/-! ## Clauses -/

def duplicates : Rule Duplicates := do
  let all ← word "ALL"
  if ← word "DISTINCT" then
    if all then fail
    if ← word "ON" then
      let columns ← inParens (separatedBefore ")" d.text)
      return .on (commaed columns)
    else return .dropped
  else return .kept

def top? : Rule String := do
  if ← word "TOP" then
    let amount ←
      if ← sign "(" then do
        let s ← d.text
        expectSign ")"
        pure ("(" ++ s ++ ")")
      else do pure (toString (← nat))
    let percent ← word "PERCENT"
    let ties ← words ["WITH", "TIES"]
    return " TOP " ++ amount ++ (if percent then " PERCENT" else "") ++
      (if ties then " WITH TIES" else "")
  else return ""

def into? : Rule String := do
  if ← word "INTO" then
    let temporary ← oneOf? ["TEMP", "TEMPORARY"]
    let unlogged ← word "UNLOGGED"
    let table ← word "TABLE"
    return " INTO " ++ wordIf temporary.isSome "TEMPORARY" ++ wordIf unlogged "UNLOGGED" ++
      wordIf table "TABLE" ++ (← dottedName)
  else return ""

def lateralView? : Rule (Option String) := do
  if ← words ["LATERAL", "VIEW"] then
    let outer ← word "OUTER"
    let e ← d.text
    let view ← dottedName
    let columns ← separated (aliasName? ["WHERE", "GROUP", "CLUSTER", "HAVING", "LATERAL"])
    let columns := columns.reduceOption.map Ident.text
    return some (" LATERAL VIEW " ++ wordIf outer "OUTER" ++ e ++ " " ++ view ++
      (if columns.isEmpty then "" else " AS " ++ commaed columns))
  else return none

/-- A list of expressions in parentheses, which may be empty. -/
def tuple : Rule String := do
  return "(" ++ commaed (← inParens (separatedBefore ")" d.text)) ++ ")"

def groupKey : Rule String := do
  let sets (k : String) : Rule String := do
    let set : Rule String := do
      if ← atSign "(" then
        match ← inParens (separatedBefore ")" d.text) with
        | [s] => return s
        | ss => return "(" ++ commaed ss ++ ")"
      else d.text
    return k ++ " (" ++ commaed (← inParens (separated set)) ++ ")"
  if ← words ["GROUPING", "SETS"] then
    return "GROUPING SETS (" ++ commaed (← inParens (separated (tuple d))) ++ ")"
  else if ← word "CUBE" then sets "CUBE"
  else if ← word "ROLLUP" then sets "ROLLUP"
  else
    match ← get with
    | .sign "(" :: .sign ")" :: ts => do set ts; return "()"
    | _ => d.text

def groupBy? : Rule (Option String) := do
  if ← words ["GROUP", "BY"] then
    let keys ← if ← word "ALL" then pure "ALL" else do pure (commaed (← separated (groupKey d)))
    let modifiers ← repeated (do
      optional (← word "WITH") (do return " WITH " ++ (← oneOf ["ROLLUP", "CUBE", "TOTALS"])))
    return some (" GROUP BY " ++ keys ++ String.join modifiers)
  else return none

def namedWindow : Rule String := do
  let i ← name
  expectWord "AS"
  if ← sign "(" then return i.text ++ " AS (" ++ (← Expression.windowSpec d) ++ ")"
  else return i.text ++ " AS " ++ (← name).text

def windows : Rule String := do return " WINDOW " ++ commaed (← separated (namedWindow d))
def qualify : Rule String := do return " QUALIFY " ++ (← d.text)

/-- WINDOW and QUALIFY, in any order. -/
def windowsAndQualify : Rule String := do
  if ← word "WINDOW" then
    let s ← windows d
    if ← word "QUALIFY" then return s ++ (← qualify d) else return s
  else if ← word "QUALIFY" then
    let s ← qualify d
    if ← word "WINDOW" then return s ++ (← windows d) else return s
  else return ""

def connectBy? : Rule String := do
  let start : Rule String := do
    expectWord "WITH"
    return " START WITH " ++ (← d.text)
  let connect : Rule String := do
    expectWord "BY"
    return " CONNECT BY " ++ commaed (← withPrior (separated d.text))
  match ← oneOf? ["START", "CONNECT"] with
  | some "START" =>
    let s ← start
    expectWord "CONNECT"
    return s ++ (← connect)
  | some _ =>
    let c ← connect
    expectWord "START"
    return (← start) ++ c
  | none => return ""

/-- The values between those that are there. -/
def interpolation? : Rule String := do
  if ← word "INTERPOLATE" then
    if ← atSign "(" then
      let column : Rule String := do
        let i ← name
        let e ← optional (← word "AS") d.text
        return i.text ++ e.elim "" (" AS " ++ ·)
      return " INTERPOLATE (" ++ commaed (← inParens (separatedBefore ")" column)) ++ ")"
    else return " INTERPOLATE"
  else return ""

/-- The order of rows. -/
def orderBy? : Rule (Option String) := do
  if ← words ["ORDER", "BY"] then
    let keys ← Expression.orderKeys d
    return some (" ORDER BY " ++ keys ++ (← interpolation? d))
  else return none

/-- A list of expressions after two keywords. -/
def listAfter? (ks : List String) : Rule String := do
  if ← words ks then return " " ++ " ".intercalate ks ++ " " ++ (← d.textList) else return ""

/-- A SELECT after its keyword. -/
def rule : Rule (Written Select) := do
  let duplicates ← duplicates d
  let top ← top? d
  let items ← separated (item d)
  let into ← into?
  let tables ← if ← word "FROM" then separated (TableRule.table d) else pure []
  let views ← repeated (lateralView? d)
  let before ← optional (← word "PREWHERE") d.text
  let condition ← optional (← word "WHERE") d.anyExpr
  let groups ← groupBy? d
  let cluster ← listAfter? d ["CLUSTER", "BY"]
  let distribute ← listAfter? d ["DISTRIBUTE", "BY"]
  let sort ← listAfter? d ["SORT", "BY"]
  let having ← optional (← word "HAVING") d.text
  let windows ← windowsAndQualify d
  let connect ← connectBy? d
  let from_ := if tables.isEmpty then "" else " FROM " ++ commaed (tables.map (·.2))
  let written := "SELECT" ++ (if duplicates == .kept then "" else " " ++ duplicates.written) ++ top ++
    " " ++ commaed (items.map (·.2)) ++ into ++ from_ ++ String.join views ++
    before.elim "" (" PREWHERE " ++ ·) ++ condition.elim "" (fun e => " WHERE " ++ e.text) ++
    groups.getD "" ++ cluster ++ distribute ++ sort ++ having.elim "" (" HAVING " ++ ·) ++
    windows ++ connect
  return (⟨duplicates, items.map (·.1), tables.map (·.1), condition, groups.isSome,
    having.isSome⟩, written)

end SelectRule

end LogQuery.Sql
