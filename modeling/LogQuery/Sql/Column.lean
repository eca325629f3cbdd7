import LogQuery.Sql.Grammar

/-!
# Rules for columns

What a definition says about a column besides its name and its type: where its
values come from and what they must satisfy. Types may be made of columns, so
these rules come before those for types.
-/

namespace LogQuery.Sql

open Rule

namespace ColumnRule

variable (d : Deeper)

/-! ## Constraints -/

/-- What happens to rows whose reference goes away. -/
def referentialAction : Rule String := do
  if ← words ["SET", "NULL"] then return "SET NULL"
  else if ← words ["SET", "DEFAULT"] then return "SET DEFAULT"
  else if ← words ["NO", "ACTION"] then return "NO ACTION"
  else oneOf ["RESTRICT", "CASCADE"]

/-- The actions on deletion and on change, each at most once. -/
def actions : Rule String := do
  let onDelete : Rule (Option String) := do
    optional (← words ["ON", "DELETE"]) referentialAction
  let onUpdate : Rule (Option String) := do
    optional (← words ["ON", "UPDATE"]) referentialAction
  let deletion ← onDelete
  let update ← onUpdate
  let deletion ← if deletion.isNone then onDelete else pure deletion
  return deletion.elim "" (" ON DELETE " ++ ·) ++ update.elim "" (" ON UPDATE " ++ ·)

/-- When a constraint is checked, and whether it is. -/
structure Checking where
  deferrable : Option String := none
  initially : Option String := none
  enforced : Option String := none

def Checking.written (c : Checking) : String :=
  String.join ([c.deferrable, c.initially, c.enforced].reduceOption.map (" " ++ ·))

/-- One more word on how a constraint is checked, if it says what is not said yet. -/
def checkingStep (c : Checking) : Rule Checking := do
  if ← andThen c.deferrable.isNone (words ["NOT", "DEFERRABLE"]) then
    return { c with deferrable := some "NOT DEFERRABLE" }
  else if ← andThen c.deferrable.isNone (word "DEFERRABLE") then
    return { c with deferrable := some "DEFERRABLE" }
  else if ← andThen c.initially.isNone (word "INITIALLY") then
    return { c with initially := some ("INITIALLY " ++ (← oneOf ["DEFERRED", "IMMEDIATE"])) }
  else if ← andThen c.enforced.isNone (word "ENFORCED") then
    return { c with enforced := some "ENFORCED" }
  else if ← andThen c.enforced.isNone (words ["NOT", "ENFORCED"]) then
    return { c with enforced := some "NOT ENFORCED" }
  else return c

/-- How a constraint is checked, with a blank before it. Each of three things is
said at most once. -/
def checking : Rule String := do
  return (← checkingStep (← checkingStep (← checkingStep {}))).written

/-- A name that a constraint is given, with a blank after it. -/
def constraintName? : Rule (Option String) := do
  if ← word "CONSTRAINT" then return some ("CONSTRAINT " ++ (← name).text ++ " ") else return none

/-! ## Properties -/

def rangePartition : Rule String := do
  expectSign "("
  let column ← name
  expectWord "RANGE"
  let side ← flagOf ["LEFT", "RIGHT"]
  expectWords ["FOR", "VALUES"]
  let values ← inParens d.textList
  expectSign ")"
  return "PARTITION (" ++ column.text ++ " RANGE" ++ side ++ " FOR VALUES (" ++ values ++ "))"

def clusteredIndex : Rule String := do
  if ← word "COLUMNSTORE" then
    expectWord "INDEX"
    if ← word "ORDER" then return "CLUSTERED COLUMNSTORE INDEX ORDER " ++ (← nameList)
    else return "CLUSTERED COLUMNSTORE INDEX"
  else
    expectWord "INDEX"
    let column : Rule String := do
      let i ← name
      return i.text ++ (← flagOf ["ASC", "DESC"])
    return "CLUSTERED INDEX (" ++ commaed (← inParens (separated column)) ++ ")"

/-- A property of an object: a name with its value, or one that words describe. -/
def property : Rule String := do
  match ← get with
  | .keyword "HEAP" s :: ts => set ts; return s
  | .keyword "PARTITION" _ :: ts => set ts; rangePartition d
  | .keyword "CLUSTERED" _ :: ts => set ts; clusteredIndex
  | _ =>
    let i ← name
    expectSign "="
    return i.text ++ " = " ++ (← d.text)

/-- Properties in parentheses, in their written form. -/
def properties : Rule String := do return "(" ++ commaed (← inParens (separated (property d))) ++ ")"

/-- Properties after some keywords, if these come next. -/
def propertiesAfter? (ks : List String) : Rule (Option String) := do
  optional (← words ks) (properties d)

/-! ## Sequences -/

/-- A keyword, another one that may follow it, and a number. -/
def numbered (k : String) (between : Option String) : Rule String := do
  if ← word k then
    let extra ← between.elim (pure "") flag
    return " " ++ k ++ extra ++ " " ++ (← signedAmount)
  else return ""

/-- How a sequence goes on, with a blank before it. -/
def sequenceOptions : Rule String := do
  let bound (k : String) : Rule String := do
    let none_ ← flags ["NO", k]
    if none_.isEmpty then numbered k none else pure none_
  let increment ← numbered "INCREMENT" (some "BY")
  let least ← bound "MINVALUE"
  let most ← bound "MAXVALUE"
  let start ← numbered "START" (some "WITH")
  let cache ← numbered "CACHE" none
  let noCycle ← flags ["NO", "CYCLE"]
  let cycle ← if noCycle.isEmpty then flag "CYCLE" else pure noCycle
  return increment ++ least ++ most ++ start ++ cache ++ cycle

/-! ## Options of a column -/

/-- An expression that a column is computed by, and whether its values are kept. -/
def computed : Rule String := do
  let e ← inParens d.text
  return "AS (" ++ e ++ ")" ++ (← flagOf ["STORED", "VIRTUAL"])

/-- The rest of an identity, whose sequence may be described. -/
def identity (start : String) : Rule String := do
  if ← atSign "(" then
    let options ← inParens sequenceOptions
    return start ++ " AS IDENTITY" ++ (if options.isEmpty then "" else " (" ++ options ++ " )")
  else return start ++ " AS IDENTITY"

/-- How the values of a column are generated. Words that say nothing of the kind are
passed over. -/
def generated? : Rule (Option String) := do
  if ← words ["ALWAYS", "AS", "IDENTITY"] then some <$> identity "GENERATED ALWAYS"
  else if ← words ["BY", "DEFAULT", "AS", "IDENTITY"] then
    some <$> identity "GENERATED BY DEFAULT"
  else if ← words ["ALWAYS", "AS"] then
    if ← atSign "(" then return some ("GENERATED ALWAYS " ++ (← computed d)) else return none
  else return none

def references : Rule String := do
  let table ← dottedName
  let columns ← nameList?
  let actions ← actions
  return "REFERENCES " ++ table ++ columns ++ actions ++ (← checking)

/-- One option of a column. -/
def option? : Rule (Option String) := do
  if ← words ["CHARACTER", "SET"] then return some ("CHARACTER SET " ++ (← dottedName))
  else if ← words ["NOT", "NULL"] then return some "NOT NULL"
  else if ← words ["PRIMARY", "KEY"] then return some ("PRIMARY KEY" ++ (← checking))
  else if ← words ["ON", "UPDATE"] then return some ("ON UPDATE " ++ (← d.text))
  else if ← words ["ON", "CONFLICT"] then
    return some ("ON CONFLICT " ++ (← oneOf ["ROLLBACK", "ABORT", "FAIL", "IGNORE", "REPLACE"]))
  else
    match ← oneOf? ["COMMENT", "DEFAULT", "MATERIALIZED", "ALIAS", "EPHEMERAL", "UNIQUE",
        "REFERENCES", "CHECK", "GENERATED", "OPTIONS", "AS", "IDENTITY", "NULL", "AUTO_INCREMENT",
        "AUTOINCREMENT", "ASC", "DESC"] with
    | none => return none
    | some k =>
      match k with
      | "COMMENT" => return some ("COMMENT " ++ quoted '\'' (← plainText))
      | "DEFAULT" | "MATERIALIZED" | "ALIAS" => return some (k ++ " " ++ (← d.text))
      | "EPHEMERAL" =>
        if (← atSign ",") || (← atSign ")") then return some k
        else return some (k ++ " " ++ (← d.text))
      | "UNIQUE" => return some ("UNIQUE" ++ (← checking))
      | "REFERENCES" => some <$> references
      | "CHECK" => return some ("CHECK (" ++ (← inParens d.text) ++ ")")
      | "GENERATED" => generated? d
      | "OPTIONS" => return some ("OPTIONS" ++ (← properties d))
      | "AS" => some <$> computed d
      | "IDENTITY" =>
        if ← sign "(" then
          let seed ← signedAmount
          expectSign ","
          let increment ← signedAmount
          expectSign ")"
          return some ("IDENTITY(" ++ seed ++ ", " ++ increment ++ ")")
        else return some k
      | k => return some k

/-- What follows the type of a column. Of several collations the last one counts. -/
def optionsFrom (collation : Option String) : Nat → Rule (Option String × List String)
  | 0 => fail
  | n + 1 => do
    let constraint ← constraintName?
    match ← option? d with
    | some o => do
      let (collation, options) ← optionsFrom collation n
      return (collation, (" " ++ constraint.getD "" ++ o) :: options)
    | none =>
      if constraint.isSome then fail
      else if ← word "COLLATE" then optionsFrom (some (← dottedName)) n
      else return (collation, [])

/-- A column with its type. -/
def definition (type : Rule String) : Rule String := do
  let i ← name
  let t ← type
  let collation ← optional (← word "COLLATE") dottedName
  let (collation, options) ← optionsFrom d collation ((← get).length + 1)
  return i.text ++ " " ++ t ++ collation.elim "" (" COLLATE " ++ ·) ++ String.join options

end ColumnRule

end LogQuery.Sql
