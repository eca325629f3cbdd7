import LogQuery.Sql.Column

/-!
# Names of types

Types occur in casts, in column definitions and before texts of a type. A word
that names no type is the name of a custom one. A type may be made of other types,
and one of whole columns.
-/

namespace LogQuery.Sql

inductive TypeKind
  | standard | interval
  | custom (name : List Ident)
deriving DecidableEq, Repr

structure TypeName where
  kind : TypeKind
  written : String
deriving DecidableEq, Repr

namespace TypeName

open Rule

/-- Types that are one word. -/
def plainTypes : List String :=
  ["BOOLEAN", "BOOL", "REAL", "FLOAT4", "FLOAT64", "FLOAT8", "INT64", "UUID", "DATE", "JSON",
    "JSONB", "REGCLASS", "TEXT", "BYTEA", "TRIGGER"]

/-- Types that are one word, which is not written in capitals. -/
def mixedTypes : List (String × String) :=
  [("INT16", "Int16"), ("INT32", "Int32"), ("INT128", "Int128"), ("INT256", "Int256"),
    ("UINT8", "UInt8"), ("UINT16", "UInt16"), ("UINT32", "UInt32"), ("UINT64", "UInt64"),
    ("UINT128", "UInt128"), ("UINT256", "UInt256"), ("FLOAT32", "Float32"), ("DATE32", "Date32")]

/-- Types that a number in parentheses may follow. -/
def sizedTypes : List String :=
  ["FLOAT", "CLOB", "BINARY", "VARBINARY", "BLOB", "BYTES", "DATETIME", "TIMESTAMPTZ", "TIMETZ",
    "STRING"]

/-- Types that UNSIGNED may follow. -/
def integerTypes : List String :=
  ["TINYINT", "INT2", "SMALLINT", "MEDIUMINT", "INT", "INT4", "INT8", "INTEGER", "BIGINT"]

/-- Types of a precision and a scale. -/
def exactTypes : List String := ["NUMERIC", "DECIMAL", "DEC", "BIGNUMERIC", "BIGDECIMAL"]

/-- Types around other types in parentheses. -/
def wrappers : List (String × String) :=
  [("NULLABLE", "Nullable"), ("LOWCARDINALITY", "LowCardinality")]

/-- A number in parentheses, if there is one. -/
def size? : Rule String := do
  if ← atSign "(" then return "(" ++ toString (← inParens nat) ++ ")" else return ""

/-- One or two numbers in parentheses, if there are any. -/
def sizes? : Rule String := do
  if ← sign "(" then
    let a ← nat
    let b ← optional (← sign ",") nat
    expectSign ")"
    return "(" ++ toString a ++ b.elim "" (fun n => "," ++ toString n) ++ ")"
  else return ""

/-- The length of a text in parentheses, if there is one. -/
def length? : Rule String := do
  if ← sign "(" then
    let s ←
      if ← word "MAX" then pure "MAX"
      else do
        let n ← nat
        let unit ← oneOf? ["CHARACTERS", "OCTETS"]
        pure (toString n ++ unit.elim "" (" " ++ ·))
    expectSign ")"
    return "(" ++ s ++ ")"
  else return ""

def zone? : Rule String := do
  if ← word "WITH" then expectWords ["TIME", "ZONE"]; return " WITH TIME ZONE"
  else if ← word "WITHOUT" then expectWords ["TIME", "ZONE"]; return " WITHOUT TIME ZONE"
  else return ""

/-- CHAR and CHARACTER, which two more words may follow. -/
def character (k : String) : Rule String := do
  if ← word "VARYING" then return k ++ " VARYING" ++ (← length?)
  else if ← words ["LARGE", "OBJECT"] then return k ++ " LARGE OBJECT" ++ (← size?)
  else return k ++ (← length?)

/-- What stands in parentheses after the name of a custom type; commas may be missing. -/
def modifiersFrom : Nat → Rule (List String)
  | 0 => fail
  | n + 1 => do
    match ← next with
    | .sign ")" => return []
    | .sign "," => modifiersFrom n
    | .number s _ => return s :: (← modifiersFrom n)
    | .text .plain s => return s :: (← modifiersFrom n)
    | .word s quote => return (Token.word s quote).source :: (← modifiersFrom n)
    | .keyword _ s => return s :: (← modifiersFrom n)
    | _ => fail

def custom : Rule TypeName := do
  let parts ← names
  let modifiers ← if ← sign "(" then modifiersFrom ((← get).length + 1) else pure []
  return ⟨.custom parts,
    dotted parts ++ (if modifiers.isEmpty then "" else "(" ++ commaed modifiers ++ ")")⟩

/-- Texts in parentheses, in their written form. -/
def textList : Rule String := do
  return "(" ++ commaed ((← inParens (separated plainText)).map (quoted '\'')) ++ ")"

/-- Closes an angle bracket; two that close at once count for the next one too. -/
def closeAngle (closed : Bool) : Rule Bool := do
  if closed then return false
  else if ← sign ">" then return false
  else if ← sign ">>" then return true
  else fail

/-- `[]` after a type, which a number may stand in. -/
def brackets? : Rule (Option String) := do
  if ← sign "[" then
    let n ← attempt nat
    expectSign "]"
    return some ("[" ++ n.elim "" toString ++ "]")
  else return none

def standard (s : String) : Rule (TypeName × Bool) := return (⟨.standard, s⟩, false)

/-- Whether two words come next. -/
def atTwoWords : Rule Bool := do
  match ← get with
  | t :: u :: _ => return (wordName? t).isSome && (wordName? u).isSome
  | _ => return false

variable (d : Deeper)

mutual

/-- A type, and whether it closed an angle bracket that is not its own. -/
def unclosed : Nat → Rule (TypeName × Bool)
  | 0 => fail
  | n + 1 => do
    let (t, closed) ← base n
    let suffixes ← repeated brackets?
    if suffixes.isEmpty then return (t, closed)
    else return (⟨.standard, t.written ++ String.join suffixes⟩, closed)

def base : Nat → Rule (TypeName × Bool)
  | 0 => fail
  | n + 1 => do
    match ← get with
    | .keyword k _ :: ts =>
      let before ← get
      set ts
      if plainTypes.contains k then standard k
      else if let some written := mixedTypes.lookup k then standard written
      else if sizedTypes.contains k then standard (k ++ (← size?))
      else if integerTypes.contains k then
        let s ← size?
        standard (k ++ s ++ (if ← word "UNSIGNED" then " UNSIGNED" else ""))
      else if exactTypes.contains k then standard (k ++ (← sizes?))
      else
        match k with
        | "INTERVAL" => return (⟨.interval, "INTERVAL"⟩, false)
        | "DOUBLE" => standard (if ← word "PRECISION" then "DOUBLE PRECISION" else "DOUBLE")
        | "VARCHAR" | "NVARCHAR" => standard (k ++ (← length?))
        | "CHAR" | "CHARACTER" => standard (← character k)
        | "TIMESTAMP" | "TIME" =>
          let s ← size?
          standard (k ++ s ++ (← zone?))
        | "DATETIME64" =>
          expectSign "("
          let p ← nat
          let zone ← optional (← sign ",") textOrWord
          expectSign ")"
          standard ("DateTime64(" ++ toString p ++ zone.elim "" (fun z => ", '" ++ z ++ "'") ++ ")")
        | "FIXEDSTRING" => standard ("FixedString(" ++ toString (← inParens nat) ++ ")")
        | "ENUM" | "SET" => standard (k ++ (← textList))
        | "ARRAY" =>
          expectSign "<"
          let (inner, closed) ← unclosed n
          let closed ← closeAngle closed
          return (⟨.standard, "ARRAY<" ++ inner.written ++ ">"⟩, closed)
        | "STRUCT" =>
          if ← sign "<" then
            let (members, closed) ← members n
            return (⟨.standard, "STRUCT<" ++ commaed members ++ ">"⟩, closed)
          else standard "STRUCT"
        | "NULLABLE" | "LOWCARDINALITY" =>
          let inner ← inParens (closed n)
          standard ((wrappers.lookup k).getD k ++ "(" ++ inner.written ++ ")")
        | "MAP" =>
          expectSign "("
          let key ← closed n
          expectSign ","
          let value ← closed n
          expectSign ")"
          standard ("Map(" ++ key.written ++ ", " ++ value.written ++ ")")
        | "TUPLE" =>
          let parts ← inParens (separated (do return (← member n).1))
          standard ("Tuple(" ++ commaed parts ++ ")")
        | "UNION" =>
          let part : Rule String := do
            let i ← name
            return i.text ++ " " ++ (← closed n).written
          standard ("UNION(" ++ commaed (← inParens (separated part)) ++ ")")
        | "NESTED" =>
          let column := ColumnRule.definition d (do return (← closed n).written)
          standard ("Nested(" ++ commaed (← inParens (separated column)) ++ ")")
        | _ =>
          set before
          return (← custom, false)
    | .word _ _ :: _ => return (← custom, false)
    | _ => fail

/-- A type that closes no angle bracket but its own. -/
def closed : Nat → Rule TypeName
  | 0 => fail
  | n + 1 => do
    let (t, closesMore) ← unclosed n
    if closesMore then fail else return t

/-- A member of a structure, which has a name if two words come next. -/
def member : Nat → Rule (String × Bool)
  | 0 => fail
  | n + 1 => do
    if ← atTwoWords then
      let i ← name
      let (t, closed) ← unclosed n
      return (i.text ++ " " ++ t.written, closed)
    else
      let (t, closed) ← unclosed n
      return (t.written, closed)

/-- The members of a structure up to the bracket that closes it. -/
def members : Nat → Rule (List String × Bool)
  | 0 => fail
  | n + 1 => do
    let (m, closed) ← member n
    if ← sign "," then
      if closed then fail
      let (rest, closed) ← members n
      return (m :: rest, closed)
    else return ([m], ← closeAngle closed)

end

/-- A type. -/
def rule : Rule TypeName := do closed d (3 * (← get).length + 3)

/-- A type in its written form. -/
def text : Rule String := do return (← rule d).written

/-- The members of a structure after its opening bracket. -/
def structure? : Rule (List String) := do
  let (ms, closed) ← members d (3 * (← get).length + 3)
  if closed then fail else return ms

end TypeName

end LogQuery.Sql
