import LogQuery.Cli.Command

/-!
# Help texts of the command line

Help says what a command does, how it is called, and what its operands and options
are, with the options aligned.
-/

namespace LogQuery.Cli

/-- The program with its version. -/
def versionText : String := "tp 0.1.0\n"

/-- The rows of a list, their second column aligned. -/
def columns (rows : List (String × String)) : List String :=
  let width := rows.foldl (fun w r => max w r.1.length) 0
  rows.map fun (left, right) =>
    "  " ++ String.ofList (left.toList.rightpad width ' ') ++ "  " ++ right

def helpOption : String × String := ("-h, --help", "Print help")

def rootOption : String × String :=
  ("    --log-root <LOG_ROOT>", "Log root directory [default: " ++ defaultRoot ++ "]")

def hubOption : String × String :=
  ("    --hub <HUB>", "[env: TP_HUB_URL=] [default: " ++ defaultHub ++ "]")

def Verb.about : Verb → String
  | query => "Run a query against local log files"
  | remote => "Run a query on a running hub"
  | push => "Send lines from stdin to a hub as freshly ingested lines of \x60source\x60"
  | sources => "List the sources under the log root"

/-- How the operand of a command is called, and what it is. -/
def Verb.operand? : Verb → Option (String × String)
  | query => some ("<QUERY>", "SQL query, or \x60-\x60 to read it from stdin")
  | remote => some ("<QUERY>", "")
  | push => some ("<SOURCE>", "")
  | sources => none

def Verb.optionRows (processors : Nat) : Verb → List (String × String)
  | query => [rootOption,
      ("    --max-parallelism <MAX_PARALLELISM>",
        "Maximum number of files scanned at once [default: " ++ toString processors ++ "]"),
      ("    --skip-sort", "Print search results as soon as they are found, unordered"), helpOption]
  | remote | push => [hubOption, helpOption]
  | sources => [rootOption, helpOption]

/-- The help of a command. -/
def Verb.helpLines (processors : Nat) (v : Verb) : List String :=
  [v.about, "",
    "Usage: tp " ++ v.name ++ " [OPTIONS]" ++ v.operand?.elim "" fun o => " " ++ o.1] ++
  v.operand?.elim [] (fun o => ["", "Arguments:"] ++ columns [o]) ++
  ["", "Options:"] ++ columns (v.optionRows processors)

/-- The help of the program. -/
def programHelpLines : List String :=
  ["TIDEPOOL: minimal CLI interface", "", "Usage: tp <COMMAND>", "", "Commands:"] ++
  columns (Verb.all.map (fun v => (v.name, v.about)) ++
    [("help", "Print this message or the help of the given subcommand(s)")]) ++
  ["", "Options:"] ++ columns [helpOption, ("-V, --version", "Print version")]

def helpText (processors : Nat) (verb : Option Verb) : String :=
  String.join ((verb.elim programHelpLines (·.helpLines processors)).map (· ++ "\n"))

end LogQuery.Cli
