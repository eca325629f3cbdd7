import LogQuery.Sql.Alteration
import LogQuery.Sql.Routine

/-!
# Rules for definitions

Statements that create or drop tables and other objects.
-/

namespace LogQuery.Sql

open Rule

namespace DefinitionRule

variable (d : Deeper)

/-! ## Dropping -/

/-- Objects of one kind that are dropped. A role stands alone. -/
def dropRest (temporary : Bool) (kind : String) : Rule String := do
  let exists_ ← ifExists
  let names ← dottedNames
  let cascade ← flag "CASCADE"
  let restrict ← flag "RESTRICT"
  let purge ← flag "PURGE"
  expect (cascade.isEmpty || restrict.isEmpty)
  expect (kind != "ROLE" || (cascade ++ restrict ++ purge).isEmpty)
  return "DROP " ++ wordIf temporary "TEMPORARY" ++ kind ++ exists_ ++ " " ++ names ++ cascade ++
    restrict ++ purge

/-- Something of a table that is dropped. -/
def dropOnTable (kind : String) (target : Rule String) : Rule String := do
  let exists_ ← ifExists
  let n ← target
  expectWord "ON"
  let table ← dottedName
  return "DROP " ++ kind ++ exists_ ++ " " ++ n ++ " ON " ++ table ++
    (← flagOf ["CASCADE", "RESTRICT"])

def dropSecret (temporary : Bool) : Rule String := do
  let exists_ ← ifExists
  let i ← name
  let place ← if ← word "FROM" then nameOrNothing else pure none
  return "DROP " ++ wordIf temporary "TEMPORARY" ++ "SECRET" ++ exists_ ++ " " ++ i.text ++
    place.elim "" (" FROM " ++ ·)

def drop : Rule String := do
  let temporary ← word "TEMPORARY"
  match ← oneOf ["TABLE", "VIEW", "INDEX", "ROLE", "SCHEMA", "DATABASE", "SEQUENCE", "STAGE", "TYPE",
      "FUNCTION", "PROCEDURE", "TRIGGER", "POLICY", "SECRET"] with
  | "FUNCTION" => RoutineRule.drop d "FUNCTION"
  | "PROCEDURE" => RoutineRule.drop d "PROCEDURE"
  | "TRIGGER" => dropOnTable "TRIGGER" dottedName
  | "POLICY" => dropOnTable "POLICY" (do return (← name).text)
  | "SECRET" => dropSecret temporary
  | kind => dropRest temporary kind

def truncate : Rule String := do
  let table ← flag "TABLE"
  let only ← flag "ONLY"
  let names ← dottedNames
  let partition ← optional (← word "PARTITION") (inParens d.textList)
  let restart ← flags ["RESTART", "IDENTITY"]
  let identity ← if restart.isEmpty then flags ["CONTINUE", "IDENTITY"] else pure restart
  let cascade ← flagOf ["CASCADE", "RESTRICT"]
  return "TRUNCATE" ++ table ++ only ++ " " ++ names ++ identity ++ cascade ++
    partition.elim "" (fun s => " PARTITION (" ++ s ++ ")") ++ (← onCluster)

/-! ## Creating -/

def createIndex (unique : Bool) : Rule String := do
  let concurrently ← flag "CONCURRENTLY"
  let absent ← ifAbsent
  let index ← optional (!absent.isEmpty || !(← atWord "ON")) dottedName
  expectWord "ON"
  let table ← dottedName
  let method ← optional (← word "USING") name
  let columns ← inParens (separated (Expression.orderKey d))
  let included ← optional (← word "INCLUDE") (inParens (separated name))
  let nulls ←
    if ← word "NULLS" then do
      let not ← flag "NOT"
      expectWord "DISTINCT"
      pure (" NULLS" ++ not ++ " DISTINCT")
    else pure ""
  let settings ← optional (← word "WITH") (inParens d.textList)
  let condition ← ChangeRule.where? d
  return "CREATE " ++ wordIf unique "UNIQUE" ++ "INDEX" ++ concurrently ++ absent ++
    index.elim "" (" " ++ ·) ++ " ON " ++ table ++
    method.elim "" (fun i => " USING " ++ i.text ++ " ") ++ "(" ++ ",".intercalate columns ++ ")" ++
    included.elim "" (fun is => " INCLUDE (" ++ ",".intercalate (is.map Ident.text) ++ ")") ++ nulls ++
    settings.elim "" (fun s => " WITH (" ++ s ++ ")") ++ condition

def createSchema : Rule String := do
  let absent ← ifAbsent
  let schema ← optional (!(← atWord "AUTHORIZATION")) dottedName
  let owner ← optional (schema.isNone || (← atWord "AUTHORIZATION")) (do
    expectWord "AUTHORIZATION"
    return (← name).text)
  return "CREATE SCHEMA" ++ absent ++ schema.elim "" (" " ++ ·) ++
    owner.elim "" (" AUTHORIZATION " ++ ·)

/-- The places of a database; the last one of each kind counts. -/
def placesFrom (place managed : String) : Nat → Rule String
  | 0 => return place ++ managed
  | n + 1 => do
    match ← oneOf? ["LOCATION", "MANAGEDLOCATION"] with
    | some "LOCATION" => placesFrom (" LOCATION '" ++ (← textOrWord) ++ "'") managed n
    | some _ => placesFrom place (" MANAGEDLOCATION '" ++ (← textOrWord) ++ "'") n
    | none => return place ++ managed

def createDatabase : Rule String := do
  let absent ← ifAbsent
  let n ← dottedName
  return "CREATE DATABASE" ++ absent ++ " " ++ n ++ (← placesFrom "" "" ((← get).length + 1))

def createRole : Rule String := do
  let absent ← ifAbsent
  let names ← dottedNames
  let _ ← word "WITH"
  return "CREATE ROLE" ++ absent ++ " " ++ names

def createSequence (temporary : Bool) : Rule String := do
  let absent ← ifAbsent
  let n ← dottedName
  let type ← optional (← word "AS") (TypeName.text d)
  let options ← ColumnRule.sequenceOptions
  let owner ← optional (← words ["OWNED", "BY"]) (do
    if ← word "NONE" then return "NONE" else dottedName)
  return "CREATE " ++ wordIf temporary "TEMPORARY" ++ "SEQUENCE" ++ absent ++ " " ++ n ++
    type.elim "" (" AS " ++ ·) ++ options ++ owner.elim "" (" OWNED BY " ++ ·)

def createExtension : Rule String := do
  let absent ← ifAbsent
  let i ← name
  let options ←
    if ← word "WITH" then do
      let schema ← optional (← word "SCHEMA") name
      let version ← optional (← word "VERSION") name
      let cascade ← flag "CASCADE"
      pure (schema.elim "" (fun i => " SCHEMA " ++ i.text) ++
        version.elim "" (fun i => " VERSION " ++ i.text) ++ cascade)
    else pure ""
  return "CREATE EXTENSION" ++ absent ++ " " ++ i.text ++
    (if options.isEmpty then "" else " WITH" ++ options)

/-- The parts of a type up to the closing parenthesis, before which a comma may stand. -/
def typePartsFrom : Nat → Rule (List String)
  | 0 => fail
  | n + 1 => do
    let i ← name
    let t ← TypeName.text d
    let collation ← optional (← word "COLLATE") dottedName
    let part := i.text ++ " " ++ t ++ collation.elim "" (" COLLATE " ++ ·)
    let comma ← sign ","
    if ← sign ")" then return [part]
    else if comma then return part :: (← typePartsFrom n)
    else fail

def createType : Rule String := do
  let n ← dottedName
  expectWord "AS"
  let parts ←
    if ← sign "(" then
      if ← sign ")" then pure [] else typePartsFrom d ((← get).length + 1)
    else pure []
  return "CREATE TYPE " ++ n ++ " AS (" ++ commaed parts ++ ")"

def createPolicy : Rule String := do
  let i ← name
  expectWord "ON"
  let table ← dottedName
  let kind ← optional (← word "AS") (oneOf ["PERMISSIVE", "RESTRICTIVE"])
  let command ← optional (← word "FOR") (oneOf ["ALL", "SELECT", "INSERT", "UPDATE", "DELETE"])
  return "CREATE POLICY " ++ i.text ++ " ON " ++ table ++ kind.elim "" (" AS " ++ ·) ++
    command.elim "" (" FOR " ++ ·) ++ (← AlterationRule.policyRest d)

/-- A secret after the words before its keyword. -/
def createSecret (start : String) : Rule String := do
  let absent ← ifAbsent
  let (label, first) ←
    if ← atSign "(" then pure (none, none)
    else if ← word "IN" then do pure (none, ← nameOrNothing)
    else do pure (← nameOrNothing, none)
  let place ← if ← andThen first.isNone (word "IN") then nameOrNothing else pure first
  expectSign "("
  expectWord "TYPE"
  let type ← name
  let options ← optional (← sign ",") (separated (do
    let key ← name
    return ", " ++ key.text ++ " " ++ (← name).text))
  expectSign ")"
  return start ++ "SECRET" ++ absent ++ " " ++ label.elim "" (· ++ " ") ++
    place.elim "" (fun s => "IN " ++ s ++ " ") ++ "( TYPE " ++ type.text ++
    String.join (options.getD []) ++ " )"

/-- An object that nothing may be said about before its kind. -/
def createPlain (temporary alter : Bool) (statements : Rule (List String)) (k : String) :
    Rule String :=
  match k with
  | "INDEX" => createIndex d false
  | "UNIQUE" => do
    expectWord "INDEX"
    createIndex d true
  | "VIRTUAL" => TableDefinition.createVirtualTable
  | "SCHEMA" => createSchema
  | "DATABASE" => createDatabase
  | "ROLE" => createRole
  | "SEQUENCE" => createSequence d temporary
  | "EXTENSION" => createExtension
  | "TYPE" => createType d
  | _ => RoutineRule.createProcedure d alter statements

/-- An object, with what may be said about it before its kind. Most objects cannot
be replaced. -/
def create (statements : Rule (List String)) : Rule String := do
  let replace ← words ["OR", "REPLACE"]
  let alter ← words ["OR", "ALTER"]
  let near ← word "LOCAL"
  let everywhere ← word "GLOBAL"
  let transient ← word "TRANSIENT"
  let temporary := (← oneOf? ["TEMP", "TEMPORARY"]).isSome
  let start := "CREATE " ++ wordIf replace "OR REPLACE"
  let temporaryStart := start ++ wordIf temporary "TEMPORARY"
  let replaceable := ["TABLE", "VIEW", "MATERIALIZED", "POLICY", "EXTERNAL", "FUNCTION", "TRIGGER",
    "CONSTRAINT", "MACRO", "SECRET"]
  let others := ["INDEX", "UNIQUE", "VIRTUAL", "SCHEMA", "DATABASE", "ROLE", "SEQUENCE", "EXTENSION",
    "TYPE", "PROCEDURE"]
  match ← oneOf (replaceable ++ if replace then [] else others) with
  | "TABLE" =>
    let reach := if everywhere then "GLOBAL " else wordIf near "LOCAL"
    TableDefinition.createTable d
      (start ++ reach ++ wordIf temporary "TEMPORARY" ++ wordIf transient "TRANSIENT")
  | "VIEW" => TableDefinition.createView d temporaryStart
  | "MATERIALIZED" =>
    expectWord "VIEW"
    TableDefinition.createView d (start ++ "MATERIALIZED " ++ wordIf temporary "TEMPORARY")
  | "POLICY" => createPolicy d
  | "EXTERNAL" => TableDefinition.createExternalTable d start
  | "FUNCTION" => RoutineRule.createFunction d temporaryStart
  | "TRIGGER" => RoutineRule.createTrigger d start
  | "CONSTRAINT" =>
    expectWord "TRIGGER"
    RoutineRule.createTrigger d (start ++ "CONSTRAINT ")
  | "MACRO" => RoutineRule.createMacro d temporaryStart
  | "SECRET" => createSecret temporaryStart
  | k => createPlain d temporary alter statements k

end DefinitionRule

end LogQuery.Sql
