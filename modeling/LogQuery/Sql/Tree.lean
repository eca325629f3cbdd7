import LogQuery.Sql.Token
import LogQuery.Predicate.Operator

/-!
# Syntax trees of queries

A tree keeps the structure of what a query may use and of what comes close to it.
Everything else the grammar accepts is kept as its written form: capital keywords,
single blanks and quoted texts. `Expr.text` writes any expression in that form.
-/

namespace LogQuery.Sql

open LogQuery.Predicate

/-- A name, with its quotes if it has any. -/
structure Ident where
  value : String
  quote : Option Char
deriving DecidableEq, Repr

def Ident.text (i : Ident) : String :=
  match i.quote with
  | none => i.value
  | some quote => quoted quote i.value

/-- A dotted name. -/
def dotted (parts : List Ident) : String := ".".intercalate (parts.map Ident.text)

inductive Literal
  | number (text : String) (long : Bool)
  | text (content : String)
  | boolean (b : Bool)
  | other (written : String)
deriving DecidableEq, Repr

def Literal.written : Literal → String
  | number s long => if long then s ++ "L" else s
  | text s => quoted '\'' s
  | boolean b => if b then "true" else "false"
  | other s => s

inductive UnaryOperator
  | minus | plus | negation
deriving DecidableEq, Repr

inductive BinaryOperator
  | conjunction
  | disjunction
  | comparison (c : Comparison)
  | other (written : String)
deriving DecidableEq, Repr

def comparisonSign : Comparison → String
  | .ne => "<>"
  | c => c.text

def BinaryOperator.written : BinaryOperator → String
  | conjunction => "AND"
  | disjunction => "OR"
  | comparison c => comparisonSign c
  | other s => s

/-- What stands between the parentheses of a call before its arguments. -/
inductive Quantifier
  | all | distinct
deriving DecidableEq, Repr

/-- How a call takes its arguments: without parentheses, as a subquery, or as a
list, which clauses may follow. -/
inductive CallForm
  | bare
  | subquery (written : String)
  | list (quantifier : Option Quantifier) (clauses : String)
deriving DecidableEq, Repr

/-- Expressions. A star is one only as a column or an argument; a named argument
is written with its sign. -/
inductive Expr
  | ident (name : Ident)
  | path (parts : List Ident)
  | literal (l : Literal)
  | nested (inner : Expr)
  | unary (op : UnaryOperator) (operand : Expr)
  | binary (op : BinaryOperator) (left right : Expr)
  | isNull (negated : Bool) (operand : Expr)
  | between (negated : Bool) (operand low high : Expr)
  | inList (negated : Bool) (operand : Expr) (list : List Expr)
  | like (ignoreCase negated any : Bool) (operand pattern : Expr) (escape : Option String)
  | call (name : List Ident) (parameters : String) (form : CallForm) (arguments : List Expr)
      (after : String)
  | star
  | qualifiedStar (parts : List Ident)
  | named (name : Ident) (sign : String) (argument : Expr)
  | subquery (written : String)
  | other (written : String)
deriving Repr

def commaed (parts : List String) : String := ", ".intercalate parts

/-- A word that is written if a condition holds, with the blank after it. -/
def wordIf (b : Bool) (word : String) : String := if b then word ++ " " else ""

def Quantifier.written : Option Quantifier → String
  | none => ""
  | some .all => "ALL "
  | some .distinct => "DISTINCT "

/-- The parentheses of a call. -/
def CallForm.written (form : CallForm) (arguments : List String) : String :=
  match form with
  | bare => ""
  | subquery s => "(" ++ s ++ ")"
  | list quantifier clauses =>
    "(" ++ Quantifier.written quantifier ++ commaed arguments ++
      (if clauses.isEmpty then "" else " " ++ clauses) ++ ")"

mutual

/-- The written form of an expression. -/
def Expr.text : Expr → String
  | .ident name => name.text
  | .path parts => dotted parts
  | .literal l => l.written
  | .nested e => "(" ++ e.text ++ ")"
  | .unary .minus e => "-" ++ e.text
  | .unary .plus e => "+" ++ e.text
  | .unary .negation e => "NOT " ++ e.text
  | .binary op l r => l.text ++ " " ++ op.written ++ " " ++ r.text
  | .isNull negated e => e.text ++ " IS " ++ wordIf negated "NOT" ++ "NULL"
  | .between negated e low high =>
    e.text ++ " " ++ wordIf negated "NOT" ++ "BETWEEN " ++ low.text ++ " AND " ++ high.text
  | .inList negated e list =>
    e.text ++ " " ++ wordIf negated "NOT" ++ "IN (" ++ commaed (Expr.texts list) ++ ")"
  | .like ignoreCase negated any e pattern escape =>
    e.text ++ " " ++ wordIf negated "NOT" ++ wordIf ignoreCase "ILIKE" ++
      wordIf (!ignoreCase) "LIKE" ++ wordIf any "ANY" ++ pattern.text ++
      escape.elim "" (fun c => " ESCAPE '" ++ c ++ "'")
  | .call name parameters form arguments after =>
    dotted name ++ parameters ++ form.written (Expr.texts arguments) ++ after
  | .star => "*"
  | .qualifiedStar parts => dotted parts ++ ".*"
  | .named name sign e => name.text ++ " " ++ sign ++ " " ++ e.text
  | .subquery s => "(" ++ s ++ ")"
  | .other s => s

/-- The written forms of some expressions. -/
def Expr.texts : List Expr → List String
  | [] => []
  | e :: es => e.text :: Expr.texts es

end

/-- Whether equal rows are dropped; `on` gives them by some columns. -/
inductive Duplicates
  | kept
  | dropped
  | on (columns : String)
deriving DecidableEq, Repr

def Duplicates.written : Duplicates → String
  | kept => ""
  | dropped => "DISTINCT"
  | on columns => "DISTINCT ON (" ++ columns ++ ")"

inductive SelectItem
  | star
  | column (e : Expr)
  | aliased (e : Expr) (label : Ident)
  | other (written : String)
deriving Repr

/-- Where rows come from. -/
inductive Relation
  | table (name : List Ident)
  | other (written : String)
deriving Repr

structure TableRef where
  relation : Relation
  joined : Bool
deriving Repr

/-- The parts of a SELECT that a query may use, and whether it has those that it
may not. -/
structure Select where
  duplicates : Duplicates
  items : List SelectItem
  tables : List TableRef
  condition : Option Expr
  grouped : Bool
  having : Bool
deriving Repr

inductive QueryBody
  | select (s : Select)
  | other (written : String)
deriving Repr

/-- `arranged` says that the rows are ordered, limited or offset. -/
structure Query where
  body : QueryBody
  arranged : Bool
deriving Repr

inductive Statement
  | query (q : Query)
  | other (written : String)
deriving Repr

end LogQuery.Sql
