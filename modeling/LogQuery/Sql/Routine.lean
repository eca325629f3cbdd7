import LogQuery.Sql.Query

/-!
# Rules for routines

Functions, procedures, macros and triggers. A routine is told from others of its
name by the types of its arguments.
-/

namespace LogQuery.Sql

open Rule

namespace RoutineRule

variable (d : Deeper)

/-! ## Arguments -/

/-- An argument: a mode, a name, a type and a value to use if none is given. What
would be a custom type is the name. -/
def argument : Rule String := do
  let mode ← oneOf? ["IN", "OUT", "INOUT"]
  let first ← TypeName.rule d
  let (label, type) ←
    match first.kind with
    | .custom parts => do pure ((parts.take 1).map (·.text ++ " "), ← TypeName.text d)
    | _ => pure ([], first.written)
  let default ← optional (← orElse (← word "DEFAULT") (sign "=")) d.text
  return mode.elim "" (· ++ " ") ++ String.join label ++ type ++ default.elim "" (" = " ++ ·)

/-- Arguments in parentheses, which are not written if there are none. -/
def arguments : Rule String := do
  let args ← inParens (separatedBefore ")" (argument d))
  return if args.isEmpty then "" else "(" ++ commaed args ++ ")"

/-- A routine, perhaps with its arguments. -/
def described : Rule String := do
  let n ← dottedName
  if ← atSign "(" then return n ++ (← arguments d) else return n

/-- Routines that are dropped. -/
def drop (kind : String) : Rule String := do
  let exists_ ← ifExists
  let routines ← separated (described d)
  return "DROP " ++ kind ++ exists_ ++ " " ++ commaed routines ++ (← flagOf ["CASCADE", "RESTRICT"])

/-! ## Functions -/

/-- What a function is, each clause with a blank before it. -/
structure FunctionClauses where
  language : Option String := none
  behavior : Option String := none
  onNull : Option String := none
  parallel : Option String := none
  body : Option (Bool × String) := none

/-- The clauses in their written form; a body that is returned comes after RETURN. -/
def FunctionClauses.written (c : FunctionClauses) : String :=
  String.join ([c.language, c.behavior, c.onNull, c.parallel].reduceOption.map (" " ++ ·)) ++
    c.body.elim "" fun (returned, s) => (if returned then " RETURN " else " AS ") ++ s

/-- The text of a function. -/
def bodyText : Rule String := do
  match ← get with
  | .text (.dollar tag) s :: ts => set ts; return (TextKind.dollar tag).written s
  | _ => return quoted '\'' (← textOrWord)

/-- One more clause of a function, none of which may come twice. -/
def clause? (c : FunctionClauses) : Rule (Option FunctionClauses) := do
  if ← words ["CALLED", "ON", "NULL", "INPUT"] then
    expect c.onNull.isNone
    return some { c with onNull := some "CALLED ON NULL INPUT" }
  else if ← words ["RETURNS", "NULL", "ON", "NULL", "INPUT"] then
    expect c.onNull.isNone
    return some { c with onNull := some "RETURNS NULL ON NULL INPUT" }
  else
    match ← oneOf? ["AS", "LANGUAGE", "IMMUTABLE", "STABLE", "VOLATILE", "STRICT", "PARALLEL",
        "RETURN"] with
    | some "AS" =>
      expect c.body.isNone
      return some { c with body := some (false, ← bodyText) }
    | some "LANGUAGE" =>
      expect c.language.isNone
      return some { c with language := some ("LANGUAGE " ++ (← name).text) }
    | some "STRICT" =>
      expect c.onNull.isNone
      return some { c with onNull := some "STRICT" }
    | some "PARALLEL" =>
      expect c.parallel.isNone
      let k ← oneOf ["UNSAFE", "RESTRICTED", "SAFE"]
      return some { c with parallel := some ("PARALLEL " ++ k) }
    | some "RETURN" =>
      expect c.body.isNone
      return some { c with body := some (true, ← d.text) }
    | some k =>
      expect c.behavior.isNone
      return some { c with behavior := some k }
    | none => return none

def clausesFrom (c : FunctionClauses) : Nat → Rule FunctionClauses
  | 0 => return c
  | n + 1 => do
    match ← clause? d c with
    | some c => clausesFrom c n
    | none => return c

/-- A function after the words before its keyword. -/
def createFunction (start : String) : Rule String := do
  let n ← dottedName
  let args ← arguments d
  let type ← optional (← word "RETURNS") (TypeName.text d)
  let clauses ← clausesFrom d {} ((← get).length + 1)
  return start ++ "FUNCTION " ++ n ++ args ++ type.elim "" (" RETURNS " ++ ·) ++ clauses.written

/-! ## Macros -/

/-- A macro, which stands for an expression or for a table. -/
def createMacro (start : String) : Rule String := do
  let n ← dottedName
  let parameter : Rule String := do
    let i ← name
    let default ← optional (← orElse (← sign ":=") (sign "=>")) d.text
    return i.text ++ default.elim "" (" := " ++ ·)
  let parameters ← inParens (separatedBefore ")" parameter)
  expectWord "AS"
  let body ← if ← word "TABLE" then do pure ("TABLE " ++ (← d.queryText)) else d.text
  return start ++ "MACRO " ++ n ++
    (if parameters.isEmpty then "" else "(" ++ commaed parameters ++ ")") ++ " AS " ++ body

/-! ## Triggers -/

/-- A change that sets a trigger off. -/
def event : Rule String := do
  match ← oneOf ["INSERT", "UPDATE", "DELETE", "TRUNCATE"] with
  | "UPDATE" =>
    let columns ← optional (← word "OF") (separated name)
    return "UPDATE" ++ columns.elim "" fun is => " OF " ++ commaed (is.map Ident.text)
  | k => return k

/-- A name for the rows before or after a change. A lone word that starts one is
passed over. -/
def transition? : Rule (Option String) := do
  match ← oneOf? ["OLD", "NEW"] with
  | none => return none
  | some k =>
    if ← word "TABLE" then
      let as_ ← flag "AS"
      return some (" " ++ k ++ " TABLE" ++ as_ ++ " " ++ (← dottedName))
    else return none

def createTrigger (start : String) : Rule String := do
  let n ← dottedName
  let period ←
    match ← oneOf ["BEFORE", "AFTER", "INSTEAD"] with
    | "INSTEAD" => do expectWord "OF"; pure "INSTEAD OF"
    | k => pure k
  let first ← event
  let others ← repeated (do optional (← word "OR") event)
  expectWord "ON"
  let table ← dottedName
  let referenced ← if ← word "FROM" then dottedNameOrNothing else pure none
  let checking ← ColumnRule.checking
  let transitions ← if ← word "REFERENCING" then repeated transition? else pure []
  expectWord "FOR"
  let each ← flag "EACH"
  let target ← oneOf ["ROW", "STATEMENT"]
  let condition ← optional (← word "WHEN") d.text
  expectWord "EXECUTE"
  let kind ← oneOf ["FUNCTION", "PROCEDURE"]
  let routine ← described d
  return start ++ "TRIGGER " ++ n ++ " " ++ period ++ " " ++ " OR ".intercalate (first :: others) ++
    " ON " ++ table ++ referenced.elim "" (" FROM " ++ ·) ++ checking ++
    (if transitions.isEmpty then "" else " REFERENCING" ++ String.join transitions) ++ " FOR" ++
    each ++ " " ++ target ++ condition.elim "" (" WHEN " ++ ·) ++ " EXECUTE " ++ kind ++ " " ++
    routine

/-! ## Procedures -/

/-- Parameters up to the closing parenthesis, before which a comma may stand; a
parameter may be missing before a comma. -/
def parametersFrom : Nat → Rule (List String)
  | 0 => fail
  | n + 1 => do
    let parameter ← optional ((← peek?).bind wordName?).isSome (do
      let i ← name
      return i.text ++ " " ++ (← TypeName.text d))
    let comma ← sign ","
    if ← sign ")" then return parameter.toList
    else if comma then return parameter.toList ++ (← parametersFrom n)
    else fail

/-- A procedure, whose body is made of statements. -/
def createProcedure (alter : Bool) (statements : Rule (List String)) : Rule String := do
  let n ← dottedName
  let parameters ← if ← sign "(" then parametersFrom d ((← get).length + 1) else pure []
  expectWords ["AS", "BEGIN"]
  let body ← statements
  expectWord "END"
  return "CREATE " ++ wordIf alter "OR ALTER" ++ "PROCEDURE " ++ n ++
    (if parameters.isEmpty then "" else " (" ++ commaed parameters ++ ")") ++ " AS BEGIN " ++
    "; ".intercalate body ++ " END"

end RoutineRule

end LogQuery.Sql
