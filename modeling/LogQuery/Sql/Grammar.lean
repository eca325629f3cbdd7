import LogQuery.Decimal.Power
import LogQuery.Sql.Tree

/-!
# Rules of the grammar

A rule reads something at the front of a list of tokens. It fails when the tokens
do not fit, or when the text is nested too deeply; only the first kind of failure
may be tried around.
-/

namespace LogQuery.Sql

inductive Failure
  | mismatch
  | tooDeep
deriving DecidableEq, Repr

abbrev Rule := StateT (List Token) (Except Failure)

namespace Rule

variable {α : Type}

def fail : Rule α := throw .mismatch

/-- The next token, which stays. -/
def peek? : Rule (Option Token) := do return (← get).head?

/-- The next token, which is read. -/
def next : Rule Token := do
  match ← get with
  | [] => fail
  | t :: ts => set ts; return t

/-- The next token, which is read, or nothing at the end. -/
def next? : Rule (Option Token) := do
  match ← get with
  | [] => return none
  | t :: ts => set ts; return some t

/-- Reads the next token if it satisfies a condition. -/
def when (p : Token → Bool) : Rule Bool := do
  match ← get with
  | [] => return false
  | t :: ts => if p t then set ts; return true else return false

/-- Reads a keyword if it comes next. -/
def word (k : String) : Rule Bool := when (·.isKeyword k)

/-- Reads a sign if it comes next. -/
def sign (s : String) : Rule Bool := when (·.isSign s)

/-- Whether a keyword comes next. -/
def atWord (k : String) : Rule Bool := do return (← peek?).any (·.isKeyword k)

/-- Whether a sign comes next. -/
def atSign (s : String) : Rule Bool := do return (← peek?).any (·.isSign s)

/-- Reads with a second rule only if a condition holds. -/
def andThen (b : Bool) (rule : Rule Bool) : Rule Bool := if b then rule else pure false

/-- Reads with a second rule only if a condition does not hold. -/
def orElse (b : Bool) (rule : Rule Bool) : Rule Bool := if b then pure true else rule

def expect (found : Bool) : Rule Unit := if found then pure () else fail

def expectWord (k : String) : Rule Unit := do expect (← word k)
def expectSign (s : String) : Rule Unit := do expect (← sign s)

def expectWords (ks : List String) : Rule Unit := ks.forM expectWord

/-- What a rule reads, or nothing if the tokens do not fit. -/
def attempt (rule : Rule α) : Rule (Option α) := fun ts =>
  match rule ts with
  | .ok (a, rest) => .ok (some a, rest)
  | .error .mismatch => .ok (none, ts)
  | .error .tooDeep => .error .tooDeep

/-- Reads several keywords if all of them come next. -/
def words (ks : List String) : Rule Bool := do return (← attempt (expectWords ks)).isSome

/-- Reads one of several keywords. -/
def oneOf? (ks : List String) : Rule (Option String) := do
  match ← get with
  | .keyword name _ :: ts => if ks.contains name then set ts; return some name else return none
  | _ => return none

def oneOf (ks : List String) : Rule String := do
  match ← oneOf? ks with
  | some k => return k
  | none => fail

/-- Reads with the rule if a condition holds. -/
def optional (found : Bool) (rule : Rule α) : Rule (Option α) :=
  if found then some <$> rule else pure none

def separatedFrom (rule : Rule α) : Nat → Rule (List α)
  | 0 => fail
  | n + 1 => do
    let a ← rule
    if ← sign "," then return a :: (← separatedFrom rule n) else return [a]

/-- One or more with commas between them. -/
def separated (rule : Rule α) : Rule (List α) := do separatedFrom rule ((← get).length + 1)

/-- None if a sign comes next, and else one or more with commas between them. -/
def separatedBefore (closing : String) (rule : Rule α) : Rule (List α) := do
  if ← atSign closing then return [] else separated rule

def inParens (rule : Rule α) : Rule α := do
  expectSign "("
  let a ← rule
  expectSign ")"
  return a

def repeatedFrom (rule : Rule (Option α)) : Nat → Rule (List α)
  | 0 => return []
  | n + 1 => do
    match ← rule with
    | some a => return a :: (← repeatedFrom rule n)
    | none => return []

/-- What a rule reads until it reads nothing; each time it must use a token. -/
def repeated (rule : Rule (Option α)) : Rule (List α) := do
  repeatedFrom rule ((← get).length + 1)

/-- PRIOR where it is an operator. No keyword has a blank, so no text has this one. -/
def priorOperator : String := "PRIOR ROW"

/-- Reads with PRIOR as an operator, which it stays for a rule around this one that
reads so too. -/
def withPrior (rule : Rule α) : Rule α := do
  let rename (old new : String) : Token → Token
    | .keyword k s => .keyword (if k == old then new else k) s
    | t => t
  if (← get).any (·.isKeyword priorOperator) then rule
  else
    modify (·.map (rename "PRIOR" priorOperator))
    let a ← rule
    modify (·.map (rename priorOperator "PRIOR"))
    return a

/-! ## Keywords as they are written -/

/-- A keyword that is written as it is, with a blank before it. -/
def flag (k : String) : Rule String := do return if ← word k then " " ++ k else ""

/-- Several keywords that are written as they are, with a blank before them. -/
def flags (ks : List String) : Rule String := do
  return if ← words ks then " " ++ " ".intercalate ks else ""

/-- One of several keywords that is written as it is, with a blank before it. -/
def flagOf (ks : List String) : Rule String := do return (← oneOf? ks).elim "" (" " ++ ·)

def ifExists : Rule String := flags ["IF", "EXISTS"]
def ifAbsent : Rule String := flags ["IF", "NOT", "EXISTS"]

/-! ## Names and numbers -/

/-- The name that a word or a keyword is. -/
def wordName? : Token → Option Ident
  | .word s quote => some ⟨s, quote⟩
  | .keyword _ s => some ⟨s, none⟩
  | _ => none

/-- A name; a quoted text will do. -/
def name? : Token → Option Ident
  | .text .plain s => some ⟨s, some '\''⟩
  | t => wordName? t

def name : Rule Ident := do
  match name? (← next) with
  | some i => return i
  | none => fail

def restOfPathFrom : Nat → Rule (List Ident)
  | 0 => fail
  | n + 1 => do
    if ← sign "." then return (← name) :: (← restOfPathFrom n) else return []

/-- A dotted name. -/
def names : Rule (List Ident) := do
  return (← name) :: (← restOfPathFrom ((← get).length + 1))

def pathOrNothingFrom : Nat → Rule (Option (List Ident))
  | 0 => return none
  | n + 1 => do
    match (← next?).bind name? with
    | none => return none
    | some i =>
      if ← sign "." then return (← pathOrNothingFrom n).map (i :: ·) else return some [i]

/-- A dotted name in its written form. What does not fit in its place is passed
over, as if nothing were there. -/
def dottedNameOrNothing : Rule (Option String) := do
  return (← pathOrNothingFrom ((← get).length + 1)).map dotted

/-- A name in its written form. What is none is passed over, as if nothing were there. -/
def nameOrNothing : Rule (Option String) := do
  return ((← next?).bind name?).map Ident.text

/-- A dotted name in its written form. -/
def dottedName : Rule String := do return dotted (← names)

/-- Dotted names with commas between them. -/
def dottedNames : Rule String := do return commaed (← separated dottedName)

/-- Names in parentheses, in their written form. -/
def nameList : Rule String := do
  return "(" ++ commaed ((← inParens (separated name)).map Ident.text) ++ ")"

/-- Names in parentheses, if there are some, with a blank before them. -/
def nameList? : Rule String := do
  if ← atSign "(" then return " " ++ (← nameList) else return ""

/-- The cluster that a table is on, with a blank before it. -/
def onCluster : Rule String := do
  if ← words ["ON", "CLUSTER"] then return " ON CLUSTER " ++ (← name).text else return ""

/-- A number of 64 unsigned bits. -/
def nat : Rule Nat := do
  match ← next with
  | .number s _ =>
    if s.all Char.isDigit then
      match s.toNat? with
      | some n => if n < Decimal.wordSize then return n else fail
      | none => fail
    else fail
  | _ => fail

/-- A number of 32 unsigned bits. -/
def smallNat : Rule Nat := do
  let n ← nat
  if n < 4294967296 then return n else fail

/-- A text, which a word that is no keyword may be. -/
def textOrWord : Rule String := do
  match ← next with
  | .text .plain s | .text .escaped s | .text .unicode s => return s
  | .word s _ => return s
  | _ => fail

/-- A plain text. -/
def plainText : Rule String := do
  match ← next with
  | .text .plain s => return s
  | _ => fail

/-- A value that stands for itself, as clauses have it. -/
def value : Rule Literal := do
  match ← next with
  | .keyword "TRUE" _ => return .boolean true
  | .keyword "FALSE" _ => return .boolean false
  | .keyword "NULL" _ => return .other "NULL"
  | .word s (some '"') => return .other (quoted '"' s)
  | .number s long => return .number s long
  | .text .plain s => return .text s
  | .text kind s => return .other (kind.written s)
  | .placeholder s => return .other s
  | .sign s =>
    if s == ":" || s == "@" then
      match ← next with
      | .number n false => return .other (s ++ n)
      | t =>
        match wordName? t with
        | some i => return .other (s ++ i.value)
        | none => fail
    else fail
  | _ => fail

/-- A number, in whose place a placeholder may stand. -/
def amount : Rule String := do
  match ← peek? with
  | some (.number ..) | some (.placeholder _) | some (.sign _) => return (← value).written
  | _ => fail

/-- A number with its sign. -/
def signedAmount : Rule String := do
  if ← sign "+" then return "+" ++ (← amount)
  else if ← sign "-" then return "-" ++ (← amount)
  else amount

/-- The names that may not follow a column without AS. -/
def notColumnAliases : List String :=
  ["WITH", "EXPLAIN", "ANALYZE", "SELECT", "WHERE", "GROUP", "SORT", "HAVING", "ORDER", "TOP",
    "LATERAL", "VIEW", "LIMIT", "OFFSET", "FETCH", "UNION", "EXCEPT", "INTERSECT", "CLUSTER",
    "DISTRIBUTE", "RETURNING", "FROM", "INTO", "END"]

/-- The names that may not follow a table without AS. -/
def notTableAliases : List String :=
  ["WITH", "EXPLAIN", "ANALYZE", "SELECT", "WHERE", "GROUP", "SORT", "HAVING", "ORDER", "PIVOT",
    "UNPIVOT", "TOP", "LATERAL", "VIEW", "LIMIT", "OFFSET", "FETCH", "UNION", "EXCEPT",
    "INTERSECT", "ON", "JOIN", "INNER", "CROSS", "FULL", "LEFT", "RIGHT", "NATURAL", "USING",
    "CLUSTER", "DISTRIBUTE", "GLOBAL", "OUTER", "SET", "QUALIFY", "WINDOW", "END", "FOR",
    "PARTITION", "PREWHERE", "SETTINGS", "FORMAT", "START", "CONNECT", "MATCH_RECOGNIZE"]

/-- A second name. After AS any name will do, and without it none of some keywords. -/
def aliasName? (reserved : List String) : Rule (Option Ident) := do
  if ← word "AS" then return some (← name)
  match ← get with
  | .keyword k s :: ts =>
    if reserved.contains k then return none
    set ts
    return some ⟨s, none⟩
  | t :: ts =>
    match name? t with
    | some i => set ts; return some i
    | none => return none
  | [] => return none

/-- The second name of a table in its written form, which may name columns too. -/
def tableAlias? : Rule (Option String) := do
  match ← aliasName? notTableAliases with
  | none => return none
  | some i => return some (i.text ++ (← nameList?))

end Rule

open Rule

/-- The rules of the next level: an expression whose operators bind tighter than
a precedence, and a query with its written form. -/
structure Deeper where
  expr : Nat → Rule Expr
  query : Rule (Query × String)

namespace Deeper

variable (d : Deeper)

def anyExpr : Rule Expr := d.expr 0

/-- An expression in its written form. -/
def text : Rule String := do return (← d.anyExpr).text

def textList : Rule String := do return commaed ((← separated d.anyExpr).map Expr.text)

def queryText : Rule String := do return (← d.query).2

/-- Whether a query comes next. -/
def atQuery : Rule Bool := do return (← atWord "SELECT") || (← atWord "WITH")

end Deeper

end LogQuery.Sql
