import LogQuery.Command.Options
import LogQuery.Engine.Query
import LogQuery.Live.Broadcaster
import LogQuery.Toml.Document

/-!
# Configuration of the hub

A configuration comes from a TOML document, whose sections are all optional, and
from options that override it. A section is a table, or an array of its fields in
order. A document with a fault anywhere counts as none.
-/

namespace LogQuery.Hub

open LogQuery.Toml LogQuery.Store

/-- A file whose lines are fed to the subscribers of a source. -/
structure TailEntry where
  source : String
  path : FilePath
  pollMillis : Nat
deriving DecidableEq, Repr

structure Config where
  engine : Engine.Settings
  minQueryLength : Nat
  liveQueueCapacity : Nat
  hostname : Option String
  tails : List TailEntry
deriving Repr

/-- How often a file is polled by default, in milliseconds. -/
def defaultPollMillis : Nat := 500

namespace Config

/-- The configuration without a document, on a machine with so many processors. -/
def default (processors : Nat) : Config where
  engine := ⟨⟨"./logs"⟩, processors, false, Engine.defaultSearchBuffer⟩
  minQueryLength := 6
  liveQueueCapacity := Live.Broadcaster.defaultCapacity
  hostname := none
  tails := []

/-! ## Fields of a section -/

def string? : Value → Option String
  | .string s => some s
  | _ => none

def natural? : Value → Option Nat
  | .integer n => if n < 0 then none else some n.toNat
  | _ => none

def boolean? : Value → Option Bool
  | .boolean b => some b
  | _ => none

/-- A section: its fields by name or by position. A date is a section without fields. -/
inductive Section
  | named (entries : Entries)
  | listed (items : List Value)

def section? : Value → Option Section
  | .date => some (.named [])
  | v => (v.entries?.map Section.named).or (v.items?.map Section.listed)

def Section.field? (s : Section) (name : String) (position : Nat) : Option Value :=
  match s with
  | .named es => es.lookup name
  | .listed vs => vs[position]?

/-- A field that need not be there; it has to be of its type if it is. -/
def Section.optional {α : Type} (s : Section) (name : String) (position : Nat)
    (read : Value → Option α) (default : α) : Option α :=
  (s.field? name position).elim (some default) read

/-- A field that has to be there. -/
def Section.required {α : Type} (s : Section) (name : String) (position : Nat)
    (read : Value → Option α) : Option α :=
  (s.field? name position).bind read

/-! ## Sections -/

def engine? (default : Engine.Settings) (v : Value) : Option Engine.Settings := do
  let s ← section? v
  return {
    root := ⟨← s.optional "log_root" 0 string? default.root.text⟩
    maxParallelism := ← s.optional "max_parallelism" 1 natural? default.maxParallelism
    skipSort := ← s.optional "skip_sort" 2 boolean? default.skipSort
    searchBuffer := ← s.optional "search_buffer" 3 natural? default.searchBuffer }

def server? (c : Config) (v : Value) : Option Config := do
  let s ← section? v
  return { c with
    minQueryLength := ← s.optional "min_query_length" 0 natural? c.minQueryLength
    liveQueueCapacity := ← s.optional "live_queue_capacity" 1 natural? c.liveQueueCapacity
    hostname := ← s.optional "hostname" 2 (fun v => (string? v).map some) c.hostname }

def tail? (v : Value) : Option TailEntry := do
  let s ← section? v
  return {
    source := ← s.required "source" 0 string?
    path := ⟨← s.required "path" 1 string?⟩
    pollMillis := ← s.optional "poll_interval_ms" 2 natural? defaultPollMillis }

def tails? (v : Value) : Option (List TailEntry) := do (← v.items?).mapM tail?

/-- The configuration of the entries of a document. -/
def ofEntries? (base : Config) (es : Entries) : Option Config := do
  let document := Section.named es
  let engine ← document.optional "engine" 0 (engine? base.engine) base.engine
  let c ← document.optional "server" 1 (server? base) base
  return { c with engine := engine, tails := ← document.optional "tail" 2 tails? base.tails }

/-- The configuration of a document, or the one without if there is none or it has a fault. -/
def load (base : Config) (document : Option Text.Bytes) : Config :=
  ((document.bind Text.decode?).bind fun cs => (Toml.parse? cs).bind (ofEntries? base)).getD base

/-! ## Options -/

/-- The command line of the hub. -/
def options : Command.Spec where
  options := [("bind", .text), ("config", .path), ("log-root", .path), ("max-parallelism", .count),
    ("skip-sort", .nothing)]
  operands := 0
  tellsVersion := true

/-- A configuration with what the options override. -/
def override (c : Config) (g : Command.Given) : Config :=
  { c with engine := { c.engine with
      root := (g.value? "log-root").elim c.engine.root FilePath.mk
      maxParallelism := (g.count? "max-parallelism").getD c.engine.maxParallelism
      skipSort := c.engine.skipSort || g.isGiven "skip-sort" } }

end Config

end LogQuery.Hub
