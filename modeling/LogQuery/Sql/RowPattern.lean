import LogQuery.Sql.Grammar

/-!
# Patterns of rows

A pattern describes a run of rows by symbols, as a regular expression does with
letters.
-/

namespace LogQuery.Sql

open Rule

namespace RowPattern

/-- The bounds of a repetition after the opening brace. -/
def bounds : Rule String := do
  if ← sign "," then
    let most ← smallNat
    expectSign "\x7d"
    return "," ++ toString most
  else
    let least ← smallNat
    if ← sign "," then
      let most ← optional (!(← atSign "\x7d")) smallNat
      expectSign "\x7d"
      return toString least ++ "," ++ most.elim "" toString
    else
      expectSign "\x7d"
      return toString least

/-- How often a pattern occurs. -/
def repetition? : Rule (Option String) := do
  match ← get with
  | .sign "*" :: ts => set ts; return some "*"
  | .sign "+" :: ts => set ts; return some "+"
  | .placeholder "?" :: ts => set ts; return some "?"
  | .sign "\x7b" :: ts =>
    set ts
    return some ("\x7b" ++ (← bounds) ++ "\x7d")
  | _ => return none

/-- A symbol, the first or the last row, or what stands between brackets. -/
def item (nested : Rule String) : Rule String := do
  match ← next with
  | .sign "^" => return "^"
  | .placeholder "$" => return "$"
  | .sign "\x7b" =>
    expectSign "-"
    let symbol ← name
    expectSign "-"
    expectSign "\x7d"
    return "\x7b- " ++ symbol.text ++ " -\x7d"
  | .word "PERMUTE" none => return "PERMUTE" ++ (← nameList)
  | .sign "(" =>
    let s ← nested
    expectSign ")"
    return "( " ++ s ++ " )"
  | t =>
    match name? t with
    | some symbol => return symbol.text
    | none => fail

def repeatedItem (nested : Rule String) : Rule String := do
  let s ← item nested
  return s ++ String.join (← repeated repetition?)

/-- Items one after another. -/
def series (nested : Rule String) : Rule String := do
  let first ← repeatedItem nested
  let others ← repeated (do
    if (← atSign ")") || (← atSign "|") then return none else some <$> repeatedItem nested)
  return " ".intercalate (first :: others)

def ruleFrom : Nat → Rule String
  | 0 => fail
  | n + 1 => do
    let first ← series (ruleFrom n)
    let others ← repeated (do optional (← sign "|") (series (ruleFrom n)))
    return " | ".intercalate (first :: others)

/-- A pattern in its written form. -/
def rule : Rule String := do ruleFrom ((← get).length + 1)

end RowPattern

end LogQuery.Sql
