import LogQuery.Command.Options
import LogQuery.Store.FilePath

/-!
# Commands of the command line

The first argument names a command and the others are for it. Help and the version
are asked for instead of a command, or help of a command among its arguments.
-/

namespace LogQuery.Cli

open LogQuery.Command LogQuery.Store

inductive Verb
  | query
  | remote
  | push
  | sources
deriving DecidableEq, Repr

/-- A command with all it needs to know. -/
inductive Command
  | query (text : String) (root : FilePath) (maxParallelism : Nat) (skipSort : Bool)
  | remote (text hub : String)
  | push (source hub : String)
  | sources (root : FilePath)
deriving DecidableEq, Repr

/-- What a command line asks for. -/
inductive Action
  | run (c : Command)
  | help (verb : Option Verb)
  | version
  | misuse
deriving DecidableEq, Repr

namespace Verb

def name : Verb → String
  | query => "query"
  | remote => "remote"
  | push => "push"
  | sources => "sources"

def all : List Verb := [query, remote, push, sources]

def ofName? (name : String) : Option Verb := all.find? fun v => v.name == name

def spec : Verb → Spec
  | query => ⟨[("log-root", .path), ("max-parallelism", .count), ("skip-sort", .nothing)], 1, false⟩
  | remote | push => ⟨[("hub", .text)], 1, false⟩
  | sources => ⟨[("log-root", .path)], 0, false⟩

end Verb

/-- Where logs are by default. -/
def defaultRoot : String := "./logs"

/-- Where a hub is by default. -/
def defaultHub : String := "http://127.0.0.1:9001"

/-- The command of a verb with its options, on a machine with so many processors. -/
def Command.ofGiven (processors : Nat) (verb : Verb) (g : Given) : Command :=
  let operand := (g.operands.head?).getD ""
  let root : FilePath := ⟨(g.value? "log-root").getD defaultRoot⟩
  let hub := (g.value? "hub").getD defaultHub
  match verb with
  | .query => .query operand root ((g.count? "max-parallelism").getD processors)
      (g.isGiven "skip-sort")
  | .remote => .remote operand hub
  | .push => .push operand hub
  | .sources => .sources root

namespace Action

/-- What the arguments after a verb ask for. -/
def ofVerb (processors : Nat) (verb : Verb) (arguments : List String) : Action :=
  match verb.spec.parse arguments with
  | .ok g => .run (.ofGiven processors verb g)
  | .error .help => .help (some verb)
  | .error _ => .misuse

/-- What the arguments after `help` ask for. -/
def ofHelp : List String → Action
  | [] => .help none
  | [name] =>
    if name == "help" then .help none else ((Verb.ofName? name).map (.help ∘ some)).getD .misuse
  | _ => .misuse

/-- What a whole command line asks for. -/
def ofArguments (processors : Nat) : List String → Action
  | [] => .misuse
  | first :: rest =>
    if first == "help" then ofHelp rest
    else
      match Verb.ofName? first, first.toList with
      | some verb, _ => ofVerb processors verb rest
      | none, '-' :: 'h' :: _ => .help none
      | none, '-' :: 'V' :: _ => .version
      | none, _ =>
        if first == "--help" then .help none
        else if first == "--version" then .version
        else .misuse

end Action

end LogQuery.Cli
