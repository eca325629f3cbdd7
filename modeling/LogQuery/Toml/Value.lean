/-!
# TOML documents as trees

A table grows while a document is read. Who may add to it depends on how it came
to be: a header closes its own table for dotted keys and for a second header, a
table that a header only passes through may still get a header of its own, and a
table made by a dotted key takes more dotted keys but no header. An inline table
is closed.
-/

namespace LogQuery.Toml

/-- How a table came to be: by its own header, by the header of a table in it, or
by a dotted key. -/
inductive Origin
  | header
  | passing
  | dotted
deriving DecidableEq, Repr

/-- Numbers with a fraction and dates are read but not kept. -/
inductive Value
  | string (s : String)
  | integer (n : Int)
  | boolean (b : Bool)
  | float
  | date
  | array (items : List Value)
  | inline (entries : List (String × Value))
  | table (origin : Origin) (entries : List (String × Value))
  | tables (items : List (List (String × Value)))
deriving Repr, Inhabited

/-- The entries of a table, in the order they were added. -/
abbrev Entries := List (String × Value)

namespace Value

/-- The entries of any kind of table. -/
def entries? : Value → Option Entries
  | inline es | table _ es => some es
  | _ => none

/-- The items of an array or of an array of tables. -/
def items? : Value → Option (List Value)
  | array vs => some vs
  | tables ts => some (ts.map (table .header))
  | _ => none

end Value

namespace Entries

/-- Puts a value in the place of the one of a key. -/
def replace (es : Entries) (key : String) (v : Value) : Entries :=
  es.map fun (k, old) => if k == key then (k, v) else (k, old)

/-- Adds a key that is not there yet. -/
def add (es : Entries) (key : String) (v : Value) : Option Entries :=
  if (es.lookup key).isSome then none else some (es ++ [(key, v)])

/-- Changes the table at a path. Tables that are missing on the way are made. A
dotted key goes only through tables without a header of their own; a header goes
through the last table of an array of tables too. -/
def changeAt (byKey : Bool) (change : Origin → Entries → Option Entries) :
    List String → Origin → Entries → Option Entries
  | [], origin, es => change origin es
  | key :: path, _, es =>
    match es.lookup key with
    | none => do
      let origin := if byKey then Origin.dotted else .passing
      es.add key (.table origin (← changeAt byKey change path origin []))
    | some (.table origin inner) =>
      if byKey && origin == .header then none
      else do return es.replace key (.table origin (← changeAt byKey change path origin inner))
    | some (.tables items) => do
      let last ← changeAt byKey change path .header ((items.getLast?).getD [])
      return es.replace key (.tables (items.dropLast ++ [last]))
    | some _ => none

/-- Adds the value of a dotted key to a table. -/
def assign (path : List String) (key : String) (v : Value) (origin : Origin) (es : Entries) :
    Option Entries :=
  es.changeAt true
    (fun origin inner =>
      if (origin == .dotted) == path.isEmpty then none else inner.add key v)
    path origin

/-- Opens the table of a header. -/
def openTable (path : List String) (key : String) (es : Entries) : Option Entries :=
  es.changeAt false
    (fun _ inner =>
      match inner.lookup key with
      | none => inner.add key (.table .header [])
      | some (.table .passing old) => some (inner.replace key (.table .header old))
      | some _ => none)
    path .header

/-- Opens a new table in an array of tables. -/
def openItem (path : List String) (key : String) (es : Entries) : Option Entries :=
  es.changeAt false
    (fun _ inner =>
      match inner.lookup key with
      | none => inner.add key (.tables [[]])
      | some (.tables items) => some (inner.replace key (.tables (items ++ [[]])))
      | some _ => none)
    path .header

/-- Adds the value of a dotted key to the table that a header has opened. -/
def assignIn (header path : List String) (key : String) (v : Value) (es : Entries) :
    Option Entries :=
  es.changeAt false (assign path key v) header .header

end Entries

end LogQuery.Toml
