import LogQuery.Sql.Expression
import LogQuery.Sql.RowPattern

/-!
# Rules for tables

A table in parentheses may be a query, a join or a lone table; a lone one takes
the second name that follows the parentheses as its own. Rows and columns of a
table may be turned into each other, or runs of its rows matched with a pattern.
-/

namespace LogQuery.Sql

open Rule

/-- A tree with its written form. -/
abbrev Written (α : Type) := α × String

namespace TableRule

variable (d : Deeper)

/-- A table with what stands before and after its second name. -/
structure Factor where
  relation? : Option (List Ident)
  before : String
  label : Option String
  after : String
  isJoin : Bool

def Factor.written (f : Factor) : String :=
  f.before ++ f.label.elim "" (" AS " ++ ·) ++ f.after

def Factor.relation (f : Factor) : Relation :=
  match f.relation? with
  | some parts => .table parts
  | none => .other f.written

/-- Something other than a named table, with its second name. -/
def derived (before : String) : Rule Factor := do return ⟨none, before, ← tableAlias?, "", false⟩

/-- Rows of values. The word ROW before one row counts for all of them. -/
def rows : Rule String := do
  let row : Rule (Bool × String) := do
    let k ← word "ROW"
    return (k, "(" ++ (← inParens d.textList) ++ ")")
  let rows ← separated row
  let start := if rows.any (·.1) then "ROW" else ""
  return "VALUES " ++ commaed (rows.map (start ++ ·.2))

def settings? : Rule (Option String) := do
  if ← word "SETTINGS" then
    let setting : Rule String := do
      let i ← name
      expectSign "="
      return i.text ++ " = " ++ (← value).written
    return some ("SETTINGS " ++ commaed (← separated setting))
  else return none

/-- The arguments of a function of tables, after the opening parenthesis. -/
def tableArguments : Nat → Rule (List String)
  | 0 => fail
  | n + 1 => do
    match ← settings? with
    | some s => return [s]
    | none =>
      let e ← Expression.argument d
      if ← sign "," then return e.text :: (← tableArguments n) else return [e.text]

/-! ## Tables made of a table -/

/-- An expression that may have a name. -/
def namedExpr (e : Rule String) : Rule String := do
  let s ← e
  let label ← optional (← word "AS") name
  return s ++ label.elim "" (fun i => " AS " ++ i.text)

/-- The call of a function by a single name, which loses its quotes. -/
def aggregate : Rule String := do
  match wordName? (← next) with
  | some i => return (← Expression.call d [⟨i.value, none⟩]).text
  | none => fail

/-- Turns the values of a column into columns. -/
def pivot (f : Factor) : Rule Factor := do
  expectSign "("
  let aggregates ← separated (namedExpr (aggregate d))
  expectWord "FOR"
  let column ← dottedName
  expectWord "IN"
  let values ← inParens (do
    if ← word "ANY" then
      let keys ← optional (← words ["ORDER", "BY"]) (Expression.orderKeys d)
      return "ANY" ++ keys.elim "" (" ORDER BY " ++ ·)
    else if ← Deeper.atQuery then d.queryText
    else return commaed (← separated (namedExpr d.text)))
  let missing ← optional (← words ["DEFAULT", "ON", "NULL"]) (inParens d.text)
  expectSign ")"
  derived (f.written ++ " PIVOT(" ++ commaed aggregates ++ " FOR " ++ column ++ " IN (" ++ values ++
    ")" ++ missing.elim "" (fun s => " DEFAULT ON NULL (" ++ s ++ ")") ++ ")")

/-- Turns columns into the values of one. -/
def unpivot (f : Factor) : Rule Factor := do
  expectSign "("
  let value ← name
  expectWord "FOR"
  let label ← name
  expectWord "IN"
  let columns ← nameList
  expectSign ")"
  derived (f.written ++ " UNPIVOT(" ++ value.text ++ " FOR " ++ label.text ++ " IN " ++ columns ++ ")")

def pivotsFrom : Nat → Factor → Rule Factor
  | 0, f => return f
  | n + 1, f => do
    match ← oneOf? ["PIVOT", "UNPIVOT"] with
    | some "PIVOT" => pivotsFrom n (← pivot d f)
    | some _ => pivotsFrom n (← unpivot f)
    | none => return f

/-- A table, turned as often as it is asked for. -/
def pivots (f : Factor) : Rule Factor := do pivotsFrom d ((← get).length + 1) f

/-- How many rows a match gives, with a blank after it. -/
def rowsPerMatch : Rule String := do
  if ← words ["ONE", "ROW", "PER", "MATCH"] then return "ONE ROW PER MATCH "
  else if ← words ["ALL", "ROWS", "PER", "MATCH"] then
    let shown ← flags ["SHOW", "EMPTY", "MATCHES"]
    let omitted ← if shown.isEmpty then flags ["OMIT", "EMPTY", "MATCHES"] else pure shown
    let mode ← if omitted.isEmpty then flags ["WITH", "UNMATCHED", "ROWS"] else pure omitted
    return "ALL ROWS PER MATCH" ++ mode ++ " "
  else return ""

/-- Where the search goes on after a match, with a blank after it. -/
def afterMatch : Rule String := do
  if ← words ["AFTER", "MATCH", "SKIP"] then
    let place ←
      if ← words ["PAST", "LAST", "ROW"] then pure "PAST LAST ROW"
      else if ← words ["TO", "NEXT", "ROW"] then pure " TO NEXT ROW"
      else if ← words ["TO", "FIRST"] then do pure ("TO FIRST " ++ (← name).text)
      else do
        expectWords ["TO", "LAST"]
        pure ("TO LAST " ++ (← name).text)
    return "AFTER MATCH SKIP " ++ place ++ " "
  else return ""

/-- Matches runs of rows with a pattern, after the opening parenthesis. -/
def recognized (f : Factor) : Rule Factor := do
  let parts ← optional (← words ["PARTITION", "BY"]) d.textList
  let keys ← optional (← words ["ORDER", "BY"]) (Expression.orderKeys d)
  let measure : Rule String := do
    let e ← d.text
    let _ ← word "AS"
    return e ++ " AS " ++ (← name).text
  let measures ← optional (← word "MEASURES") (separated measure)
  let rows ← rowsPerMatch
  let after ← afterMatch
  expectWord "PATTERN"
  let pattern ← inParens RowPattern.rule
  expectWord "DEFINE"
  let symbol : Rule String := do
    let i ← name
    expectWord "AS"
    return i.text ++ " AS " ++ (← d.text)
  let symbols ← separated symbol
  expectSign ")"
  derived (f.written ++ " MATCH_RECOGNIZE(" ++ parts.elim "" (fun s => "PARTITION BY " ++ s ++ " ") ++
    keys.elim "" (fun s => "ORDER BY " ++ s ++ " ") ++
    measures.elim "" (fun ms => "MEASURES " ++ commaed ms ++ " ") ++ rows ++ after ++ "PATTERN (" ++
    pattern ++ ") DEFINE " ++ commaed symbols ++ ")")

/-- What a column of a document has if nothing is found or if that fails. -/
def fallback? : Rule (Option String) := do
  let value? ←
    match ← oneOf? ["NULL", "ERROR", "DEFAULT"] with
    | some "DEFAULT" => do pure (some ("DEFAULT " ++ (← value).written))
    | k => pure k
  if value?.isSome then expectWord "ON"
  return value?

/-- The last fallbacks if nothing is found and if something fails. -/
def fallbacksFrom (empty error : Option String) : Nat → Rule String
  | 0 => fail
  | n + 1 => do
    match ← fallback? with
    | some s =>
      if ← word "EMPTY" then fallbacksFrom (some s) error n
      else
        expectWord "ERROR"
        fallbacksFrom empty (some s) n
    | none =>
      return empty.elim "" (fun s => " " ++ s ++ " ON EMPTY") ++
        error.elim "" (fun s => " " ++ s ++ " ON ERROR")

/-- A column of the table that a document is read as. -/
def documentColumnFrom : Nat → Rule String
  | 0 => fail
  | n + 1 => do
    if ← word "NESTED" then
      let _ ← word "PATH"
      let path ← value
      expectWord "COLUMNS"
      let columns ← inParens (separated (documentColumnFrom n))
      return "NESTED PATH " ++ path.written ++ " COLUMNS (" ++ commaed columns ++ ")"
    else
      let i ← name
      if ← word "FOR" then
        expectWord "ORDINALITY"
        return i.text ++ " FOR ORDINALITY"
      else
        let t ← TypeName.text d
        let exists_ ← flag "EXISTS"
        expectWord "PATH"
        let path ← value
        let fallbacks ← fallbacksFrom none none ((← get).length + 1)
        return i.text ++ " " ++ t ++ exists_ ++ " PATH " ++ path.written ++ fallbacks

/-- A document read as a table, after the opening parenthesis. -/
def documentTable : Rule Factor := do
  let e ← d.text
  expectSign ","
  let path ← value
  expectWord "COLUMNS"
  let column := documentColumnFrom d ((← get).length + 1)
  let columns ← inParens (separated column)
  expectSign ")"
  derived ("JSON_TABLE(" ++ e ++ ", " ++ path.written ++ " COLUMNS(" ++ commaed columns ++ "))")

/-! ## Tables -/

/-- A table by its name, with all that may surround it. -/
def namedTable : Rule Factor := do
  let parts ← names
  let partitions ← optional (← word "PARTITION") nameList
  let args ←
    if ← sign "(" then
      if ← sign ")" then pure "()"
      else do
        let args ← tableArguments d ((← get).length + 1)
        expectSign ")"
        pure ("(" ++ commaed args ++ ")")
    else pure ""
  let ordinality ← words ["WITH", "ORDINALITY"]
  let label ← tableAlias?
  let hints ← attempt (do
    expectWord "WITH"
    expectSign "(")
  let hints ← optional hints.isSome (do
    let s ← d.textList
    expectSign ")"
    return s)
  let f : Factor := ⟨some parts,
    dotted parts ++ partitions.elim "" ("PARTITION " ++ ·) ++ args ++
      (if ordinality then " WITH ORDINALITY" else ""),
    label, hints.elim "" (fun s => " WITH (" ++ s ++ ")"), false⟩
  let f ← pivots d f
  if ← word "MATCH_RECOGNIZE" then
    expectSign "("
    recognized d f
  else return f

/-- A query as a table, after its opening parenthesis. -/
def queryTable (lateral : Bool) : Rule Factor := do
  let s ← d.queryText
  expectSign ")"
  derived (wordIf lateral "LATERAL" ++ "(" ++ s ++ ")")

def unnest : Rule Factor := do
  let es ← inParens d.textList
  let ordinality ← words ["WITH", "ORDINALITY"]
  let label ← tableAlias?
  let offset ← if ← word "WITH" then word "OFFSET" else pure false
  let offsetName ← if offset then aliasName? notColumnAliases else pure none
  return ⟨none, "UNNEST(" ++ es ++ ")" ++ (if ordinality then " WITH ORDINALITY" else ""), label,
    (if offset then " WITH OFFSET" else "") ++ offsetName.elim "" (fun i => " AS " ++ i.text), false⟩

/-- What a join condition adds before and after the joined table. -/
def constraint (natural : Bool) : Rule String := do
  if natural then return ""
  else if ← word "ON" then return " ON " ++ (← d.text)
  else if ← word "USING" then return " USING" ++ (← nameList)
  else return ""

/-- The words of a join with a condition, if some come next. -/
def joinWords? (natural : Bool) : Rule (Option String) := do
  match ← oneOf? ["INNER", "JOIN", "LEFT", "RIGHT", "FULL", "OUTER"] with
  | some "JOIN" => return some "JOIN"
  | some "INNER" => expectWord "JOIN"; return some "JOIN"
  | some "FULL" =>
    let _ ← word "OUTER"
    expectWord "JOIN"
    return some "FULL JOIN"
  | some "OUTER" => fail
  | some side =>
    match ← oneOf ["OUTER", "SEMI", "ANTI", "JOIN"] with
    | "JOIN" => return some (side ++ " JOIN")
    | "OUTER" => expectWord "JOIN"; return some (side ++ " JOIN")
    | kind => expectWord "JOIN"; return some (side ++ " " ++ kind ++ " JOIN")
  | none => if natural then fail else return none

/-- One more table joined to those before it. -/
def join? (factor : Rule Factor) : Rule (Option String) := do
  let start := if ← word "GLOBAL" then " GLOBAL " else " "
  if ← word "CROSS" then
    let k ← oneOf ["JOIN", "APPLY"]
    return some (start ++ "CROSS " ++ k ++ " " ++ (← factor).written)
  else if ← word "OUTER" then
    expectWord "APPLY"
    return some (start ++ "OUTER APPLY " ++ (← factor).written)
  else if ← word "ASOF" then
    expectWord "JOIN"
    let table ← factor
    expectWord "MATCH_CONDITION"
    let condition ← inParens d.text
    return some (start ++ "ASOF JOIN " ++ table.written ++ " MATCH_CONDITION (" ++ condition ++ ")" ++
      (← constraint d false))
  else
    let natural ← word "NATURAL"
    match ← joinWords? natural with
    | none => return none
    | some k =>
      let table ← factor
      return some (start ++ wordIf natural "NATURAL" ++ k ++ " " ++ table.written ++
        (← constraint d natural))

/-- What stands in parentheses in place of a table. -/
def enclosed (factor : Rule Factor) : Rule Factor := do
  match ← attempt (queryTable d false) with
  | some f => pivots d f
  | none =>
    let f ← factor
    let joins ← repeated (join? d factor)
    expectSign ")"
    let label ← tableAlias?
    if !joins.isEmpty || f.isJoin then
      return ⟨none, "(" ++ f.written ++ String.join joins ++ ")", label, "", true⟩
    else if label.isSome && f.label.isSome then fail
    else return { f with label := f.label.or label }

def factorFrom : Nat → Rule Factor
  | 0 => fail
  | n + 1 => do
    if ← word "LATERAL" then
      if ← sign "(" then queryTable d true
      else
        let function ← dottedName
        expectSign "("
        let args ← separatedBefore ")" (Expression.argument d)
        expectSign ")"
        derived ("LATERAL " ++ function ++ "(" ++ commaed (args.map Expr.text) ++ ")")
    else if ← word "TABLE" then derived ("TABLE(" ++ (← inParens d.text) ++ ")")
    else if ← sign "(" then enclosed d (factorFrom n)
    else
      match ← get with
      | .keyword "VALUES" _ :: .sign "(" :: ts =>
        set (.sign "(" :: ts : List Token)
        derived ("(" ++ (← rows d) ++ ")")
      | .keyword "UNNEST" _ :: ts => set ts; unnest d
      | .keyword "JSON_TABLE" _ :: .sign "(" :: ts => set ts; documentTable d
      | _ => namedTable d

/-- A table and those joined to it. -/
def table : Rule (Written TableRef) := do
  let factor := factorFrom d ((← get).length + 1)
  let f ← factor
  let joins ← repeated (join? d factor)
  return (⟨f.relation, !joins.isEmpty⟩, f.written ++ String.join joins)

end TableRule

end LogQuery.Sql
