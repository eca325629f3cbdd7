import LogQuery.Sql.Administration
import LogQuery.Sql.Copy
import LogQuery.Sql.Definition
import LogQuery.Sql.Lexer
import LogQuery.Sql.Session

/-!
# Rules for statements

Queries are SELECT statements only. The others are read as far as it takes to
write them in the message that refuses them.
-/

namespace LogQuery.Sql

open Rule

namespace StatementRule

/-- Statements up to the end, which semicolons part. The word END ends them too, but
not after a semicolon. -/
def severalFrom (statement : Rule (Written Statement)) (afterOne : Bool) :
    Nat → Rule (List (Written Statement))
  | 0 => fail
  | n + 1 => do
    match ← get with
    | [] => return []
    | t :: ts =>
      if t.isSemicolon then
        set ts
        severalFrom statement false n
      else if afterOne then
        if t.isKeyword "END" then return [] else fail
      else
        let s ← statement
        return s :: (← severalFrom statement true n)

def several (statement : Rule (Written Statement)) : Rule (List (Written Statement)) := do
  severalFrom statement false (2 * (← get).length + 1)

variable (d : Deeper)

/-- A statement after its keyword, other than a query. -/
def other (statement : Rule (Written Statement)) (k : String) : Rule String :=
  match k with
  | "DELETE" => ChangeRule.delete d
  | "UPDATE" => ChangeRule.update d
  | "INSERT" | "REPLACE" => ChangeRule.insert d k
  | "MERGE" => ChangeRule.merge d
  | "COPY" => CopyRule.rule d
  | "CREATE" => DefinitionRule.create d (do return (← several statement).map (·.2))
  | "ALTER" => AlterationRule.rule d
  | "DROP" => DefinitionRule.drop d
  | "TRUNCATE" => DefinitionRule.truncate d
  | "COMMIT" | "END" => do return "COMMIT" ++ (← SessionRule.chain)
  | "ROLLBACK" => SessionRule.rollback
  | "BEGIN" => SessionRule.begin
  | "START" => do
    expectWord "TRANSACTION"
    return "START TRANSACTION" ++ (← SessionRule.modes)
  | "SAVEPOINT" => do return "SAVEPOINT " ++ (← name).text
  | "RELEASE" => do
    let _ ← word "SAVEPOINT"
    return "RELEASE SAVEPOINT " ++ (← name).text
  | "USE" => do return "USE " ++ (← dottedName)
  | "SET" => SessionRule.setting d
  | "SHOW" => SessionRule.display d
  | "EXPLAIN" | "DESCRIBE" | "DESC" => SessionRule.explain d k statement
  | "DECLARE" => SessionRule.declare d
  | "FETCH" => SessionRule.fetch
  | "CLOSE" => SessionRule.close
  | "PREPARE" => SessionRule.prepare d statement
  | "EXECUTE" | "EXEC" => SessionRule.execute d
  | "DEALLOCATE" => SessionRule.deallocate
  | "DISCARD" => SessionRule.discard
  | "PRAGMA" => SessionRule.pragma
  | "ASSERT" => SessionRule.assertion d
  | "CALL" => do
    let function ← names
    if ← atSign "(" then return "CALL " ++ (← Expression.call d function).text
    else return "CALL " ++ dotted function
  | "GRANT" => AdministrationRule.grant
  | "REVOKE" => AdministrationRule.revoke
  | "ANALYZE" => AdministrationRule.analyze d
  | "CACHE" => AdministrationRule.cache d
  | "UNCACHE" => AdministrationRule.uncache
  | "MSCK" => AdministrationRule.repair
  | "OPTIMIZE" => AdministrationRule.optimize d
  | "FLUSH" => AdministrationRule.flush
  | "KILL" => AdministrationRule.kill
  | "ATTACH" => AdministrationRule.attach d
  | "DETACH" => AdministrationRule.detach
  | "UNLOAD" => AdministrationRule.unload d
  | "INSTALL" | "LOAD" => do return k ++ " " ++ (← name).text
  | _ => fail

def isQueryStart (t : Token) : Bool :=
  t.isKeyword "SELECT" || t.isKeyword "WITH" || t.isKeyword "VALUES" || t.isSign "("

def rule (statement : Rule (Written Statement)) : Rule (Written Statement) := do
  match ← get with
  | [] => fail
  | t :: ts =>
    if isQueryStart t then
      let (q, written) ← d.query
      return (.query q, written)
    else
      match t with
      | .keyword k _ =>
        set ts
        let written ← other d statement k
        return (.other written, written)
      | _ => fail

end StatementRule

/-! ## Nesting -/

/-- The rules that may nest `n` more levels. -/
def levels : Nat → Deeper
  | 0 => ⟨fun _ => throw .tooDeep, throw .tooDeep⟩
  | n + 1 => ⟨Expression.rule (levels n), QueryRule.rule (levels n)⟩

/-- A statement that may nest `n` levels. -/
def statementRule : Nat → Rule (Written Statement)
  | 0 => throw .tooDeep
  | n + 1 => StatementRule.rule (levels n) (statementRule n)

/-- How deeply statements, queries and expressions may nest. -/
def maxNesting : Nat := 50

/-- The statements of a text; nothing if it does not follow the grammar. -/
def parse? (cs : List Char) : Option (List Statement) :=
  match tokens? cs with
  | none => none
  | some ts =>
    match StatementRule.several (statementRule maxNesting) ts with
    | .ok (ss, _) => some (ss.map (·.1))
    | .error _ => none

end LogQuery.Sql
