import LogQuery.Compile.Query
import LogQuery.Engine.Counts
import LogQuery.Engine.Search
import LogQuery.Store.Sources

/-!
# Running queries

A query is compiled, its files are found, and they are scanned. Counts and
distinct values are complete or fail; a search is a stream that may fail at its end.

Settings may hold any numbers. A plan is broken off where it asks for a semaphore or a
channel of more than there can be. A search asks for its channel before it answers and
for its semaphore after that; so without a semaphore its stream ends with nothing on it.
-/

namespace LogQuery.Engine

open LogQuery.Store LogQuery.Record LogQuery.Text

/-- How queries are run, in numbers that semaphores and channels can have. -/
structure Config where
  root : FilePath
  maxParallelism : Capacity
  skipSort : Bool
  searchBuffer : Capacity
deriving Repr

/-- How queries are to be run, in any numbers. -/
structure Settings where
  root : FilePath
  maxParallelism : Nat
  skipSort : Bool
  searchBuffer : Nat
deriving Repr

/-- What comes of settings if their numbers are no greater than they may be. -/
def Settings.config (s : Settings) : Config :=
  ⟨s.root, .upTo s.maxParallelism, s.skipSort, .upTo s.searchBuffer⟩

/-- How many records a search may hold that are not received yet. -/
def defaultSearchBuffer : Nat := 10000

inductive Answer
  | count (n : Nat)
  | distinct (keys : List String)
  | countDistinct (counts : Counts)
  | search (items : List Item)
deriving Repr

def Answer.kind : Answer → ResultKind
  | count _ => .count
  | distinct _ => .distinct
  | countDistinct _ => .countDistinct
  | search _ => .search

/-- Why there is no answer; a query that is broken off takes with it whoever asked it. -/
inductive QueryError
  | compile (e : Compile.Error)
  | failure (f : Failure)
  | brokenOff
deriving Repr

def QueryError.message : QueryError → String
  | compile e => e.message
  | failure f => f.message
  | brokenOff => "a semaphore may not have more than MAX_PERMITS permits (" ++
      toString maxCapacity ++ ")"

/-- Counts the lines that match. -/
def counting (plan : Plan) : Visitor Nat where
  start := 0
  visit n line := if plan.matchesLine line.2 then n + 1 else n
  record? _ := none

/-- The text under which a line counts: that of the first value at a path. -/
def keyOf? (plan : Plan) (path : Path) (line : Bytes) : Option String :=
  (plan.matchLine? line).bind fun record => (path.value? record).bind distinctKey?

/-- Counts the values at a path on the lines that match. -/
def countingValues (plan : Plan) (path : Path) : Visitor Counts where
  start := .empty
  visit counts line := (keyOf? plan path line.2).elim counts fun key => counts.add key 1
  record? _ := none

/-- What a scan finds by some events, if all its tasks have ended by then. -/
def scanUnder {α : Type} (c : Config) (fs : FileSystem) (visitor : Visitor α) (files : List FilePath)
    (cancelled : Bool) (events : List ScanEvent) : Option (Except Failure (List α)) :=
  let s := (Scan.start files.length c.maxParallelism cancelled c.searchBuffer).run fs visitor files
    events
  s.results?.map collect

/-- The counts of the values that a plan asks for. -/
def valuesUnder (c : Config) (fs : FileSystem) (plan : Plan) (files : List FilePath)
    (cancelled : Bool) (events : List ScanEvent) : Option (Except Failure Counts) :=
  match plan.aggregation with
  | none => some (.ok .empty)
  | some path =>
    (scanUnder c fs (countingValues plan path) files cancelled events).map fun found =>
      found.map fun counts => counts.foldl .merge .empty

/-- The answer of a plan that gathers what it finds, by some events; a search does not. -/
def answerUnder (c : Config) (fs : FileSystem) (plan : Plan) (files : List FilePath)
    (cancelled : Bool) (events : List ScanEvent) : Option (Except Failure Answer) :=
  match plan.kind with
  | .count =>
    (scanUnder c fs (counting plan) files cancelled events).map fun found =>
      found.map fun ns => .count (total ns)
  | .countDistinct => (valuesUnder c fs plan files cancelled events).map (·.map .countDistinct)
  | .distinct =>
    (valuesUnder c fs plan files cancelled events).map fun found =>
      found.map fun counts => .distinct counts.keys
  | .search => none

/-- The search for what a plan matches, in files that are as in `again` when they are read
again. -/
def rereadingJob (c : Config) (fs again : FileSystem) (plan : Plan) (files : List FilePath) :
    SearchJob :=
  ⟨fs, again, plan, files, !c.skipSort⟩

/-- The search for what a plan matches, in files that are read again as they were. -/
def searchJob (c : Config) (fs : FileSystem) (plan : Plan) (files : List FilePath) : SearchJob :=
  rereadingJob c fs fs plan files

/-- A search after some events. -/
def searchAmid (c : Config) (fs again : FileSystem) (plan : Plan) (files : List FilePath)
    (cancelled : Bool) (events : List SearchEvent) : Search :=
  let job := rereadingJob c fs again plan files
  (Search.start job c.maxParallelism cancelled c.searchBuffer).run job events

/-- A search after some events, when files are read again as they were. -/
def searchUnder (c : Config) (fs : FileSystem) (plan : Plan) (files : List FilePath)
    (cancelled : Bool) (events : List SearchEvent) : Search :=
  searchAmid c fs fs plan files cancelled events

/-- Runs a plan over some files, one after the other; the query may be cancelled
from the start. -/
def run (c : Config) (fs : FileSystem) (plan : Plan) (files : List FilePath) (cancelled : Bool) :
    Except Failure Answer :=
  match plan.kind with
  | .search =>
    .ok (.search (searchUnder c fs plan files cancelled (searchJob c fs plan files).inTurn).items)
  | _ => (answerUnder c fs plan files cancelled (inTurn fs files)).getD (.error .cancelled)

/-- Whether a plan needs a scan. To gather the values of no field it does not. -/
def needsScan (plan : Plan) : Bool :=
  match plan.kind with
  | .count | .search => true
  | .distinct | .countDistinct => plan.aggregation.isSome

/-- Runs a plan by settings, over some files. -/
def Settings.run (s : Settings) (fs : FileSystem) (plan : Plan) (files : List FilePath)
    (cancelled : Bool) : Except QueryError Answer :=
  if plan.kind == .search && s.searchBuffer > maxCapacity then .error .brokenOff
  else if needsScan plan && s.maxParallelism > maxCapacity then
    if plan.kind == .search then .ok (.search []) else .error .brokenOff
  else (Engine.run s.config fs plan files cancelled).mapError .failure

/-- Compiles a query and runs it over the files it reads. -/
def query (s : Settings) (fs : FileSystem) (text : String) : Except QueryError Answer :=
  match Plan.ofQuery text with
  | .error e => .error (.compile e)
  | .ok plan => s.run fs plan (fs.filesOfPlan s.root plan) false

end LogQuery.Engine
