import LogQuery.Sql.Query

/-!
# Rules for copies

Rows are copied between a table and a file, a program or a stream. What comes in
on a stream may stand in the text itself, after a semicolon.
-/

namespace LogQuery.Sql

open Rule

namespace CopyRule

/-- A text of one byte. -/
def oneByte : Rule String := do
  let s ← textOrWord
  if s.utf8ByteSize == 1 then return s else fail

def option : Rule String := do
  let k ← oneOf ["FORMAT", "FREEZE", "DELIMITER", "NULL", "HEADER", "QUOTE", "ESCAPE",
    "FORCE_QUOTE", "FORCE_NOT_NULL", "FORCE_NULL", "ENCODING"]
  match k with
  | "FORMAT" => return k ++ " " ++ (← name).text
  | "FREEZE" | "HEADER" =>
    return if (← oneOf? ["TRUE", "FALSE"]) == some "FALSE" then k ++ " FALSE" else k
  | "NULL" | "ENCODING" => return k ++ " " ++ quoted '\'' (← textOrWord)
  | "DELIMITER" | "QUOTE" | "ESCAPE" => return k ++ " '" ++ (← oneByte) ++ "'"
  | _ => return k ++ " " ++ (← nameList)

/-! ## Options without parentheses -/

/-- A character after a keyword, which AS may part. -/
def byteAfter (k : String) : Rule String := do
  let _ ← word "AS"
  return k ++ " '" ++ (← oneByte) ++ "'"

/-- An option of comma-separated values. -/
def commaOption : Rule String := do
  match ← oneOf ["HEADER", "QUOTE", "ESCAPE", "FORCE"] with
  | "FORCE" =>
    let kind ← if ← words ["NOT", "NULL"] then pure "NOT NULL" else oneOf ["QUOTE"]
    return "FORCE " ++ kind ++ " " ++ commaed ((← separated name).map Ident.text)
  | "HEADER" => return "HEADER"
  | k => byteAfter k

def oldOption : Rule String := do
  match ← oneOf ["BINARY", "DELIMITER", "NULL", "CSV"] with
  | "DELIMITER" => byteAfter "DELIMITER"
  | "NULL" =>
    let _ ← word "AS"
    return "NULL " ++ quoted '\'' (← textOrWord)
  | "CSV" => return "CSV " ++ " ".intercalate (← repeated (attempt commaOption))
  | k => return k

/-! ## Copies -/

/-- Where rows are copied to or from. -/
def target : Rule String := do
  match ← oneOf? ["STDIN", "STDOUT", "PROGRAM"] with
  | some "PROGRAM" => return "PROGRAM " ++ quoted '\'' (← textOrWord)
  | some k => return k
  | none => return quoted '\'' (← textOrWord)

/-- The values after a semicolon. -/
def inlineValues : Rule (List (Option String)) := do
  match ← next with
  | .semicolon data =>
    modify (·.drop data.length)
    return data.values
  | _ => fail

/-- Values in their written form, after a semicolon and before the end of data. -/
def valuesText (values : List (Option String)) : String :=
  if values.isEmpty then ""
  else ";\n" ++ "\t".intercalate (values.map (·.getD "\\N")) ++ "\n\\."

def rule (d : Deeper) : Rule String := do
  let isQuery ← atSign "("
  let source ←
    if isQuery then do pure ("(" ++ (← inParens d.queryText) ++ ")")
    else do pure ((← dottedName) ++ (← nameList?))
  let k ← oneOf ["FROM", "TO"]
  expect (!isQuery || k == "TO")
  let target ← target
  let _ ← word "WITH"
  let options ← optional (← atSign "(") (inParens (separated option))
  let oldOptions ← repeated (attempt oldOption)
  let values ← if target == "STDIN" then inlineValues else pure []
  return "COPY " ++ source ++ " " ++ k ++ " " ++ target ++
    options.elim "" (fun os => " (" ++ commaed os ++ ")") ++ String.join (oldOptions.map (" " ++ ·)) ++
    valuesText values

end CopyRule

end LogQuery.Sql
