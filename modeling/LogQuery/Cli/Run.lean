import LogQuery.Cli.Help
import LogQuery.Engine.Query
import LogQuery.Json.Printer
import LogQuery.Text.Blank

/-!
# Running a command

A command works on a store and the standard input, and ends with an exit code and
what it has written. Results have a line each; a search that fails has written the
records before the failure.
-/

namespace LogQuery.Cli

open LogQuery.Store LogQuery.Text LogQuery.Engine

structure Outcome where
  code : Nat
  output : String
  errors : String
deriving DecidableEq, Repr

/-- The lines of texts, each ended by a line feed. -/
def unlines (lines : List String) : String := String.join (lines.map (· ++ "\n"))

namespace Outcome

def success (output : String) : Outcome := ⟨0, output, ""⟩

/-- A failure after some output. -/
def failure (output message : String) : Outcome := ⟨1, output, "Error: " ++ message ++ "\n"⟩

/-- A command that is broken off; what is said of it also names a place in the program. -/
def brokenOff (message : String) : Outcome := ⟨101, "", message ++ "\n"⟩

/-- The command line is wrong. -/
def misuse : Outcome := ⟨2, "", "Usage: tp <COMMAND>\n\nFor more information, try '--help'.\n"⟩

/-- A search, written record by record. -/
def ofSearch (output : String) : List Item → Outcome
  | [] => success output
  | .failure f :: _ => failure output f.message
  | .record r :: items => ofSearch (output ++ r ++ "\n") items

def ofAnswer : Answer → Outcome
  | .count n => success (unlines [toString n])
  | .distinct keys => success (unlines keys)
  | .countDistinct counts => success (unlines [Json.prettyCounts counts.entries])
  | .search items => ofSearch "" items

def ofQueryError (e : QueryError) : Outcome :=
  match e with
  | .compile _ | .failure _ => failure "" e.message
  | .brokenOff => brokenOff e.message

end Outcome

/-- The query of the command line; a dash says that it is on the standard input. -/
def queryText (text : String) (input : Bytes) : Except String String :=
  if text == "-" then
    match decode? input with
    | some cs => .ok (trim (String.ofList cs))
    | none => .error "stream did not contain valid UTF-8"
  else .ok text

/-- Runs a query on the store below a root. -/
def runQuery (s : Settings) (fs : FileSystem) (text : String) (input : Bytes) : Outcome :=
  match queryText text input with
  | .error message => .failure "" message
  | .ok query =>
    match Engine.query s fs query with
    | .ok a => .ofAnswer a
    | .error e => .ofQueryError e

/-- Runs a command. There is no network, so a hub is out of reach. -/
def Command.run (c : Command) (fs : FileSystem) (input : Bytes) : Outcome :=
  match c with
  | .query text root maxParallelism skipSort =>
    runQuery ⟨root, maxParallelism, skipSort, defaultSearchBuffer⟩ fs text input
  | .remote _ hub | .push _ hub => .failure "" ("hub " ++ hub ++ " cannot be reached")
  | .sources root => .success (unlines (fs.sources root))

/-- Does what a command line asks for. -/
def Action.perform (a : Action) (processors : Nat) (fs : FileSystem) (input : Bytes) : Outcome :=
  match a with
  | .run c => c.run fs input
  | .help verb => .success (helpText processors verb)
  | .version => .success versionText
  | .misuse => .misuse

end LogQuery.Cli
