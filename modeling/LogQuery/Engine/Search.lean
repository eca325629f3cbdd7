import LogQuery.Engine.Counts
import LogQuery.Engine.Scan
import LogQuery.Record.Output
import LogQuery.Search.MatchRanges

/-!
# Searches

A search in order scans all files for the numbers of the lines that match, and
then reads the files again, one after the other, and sends the records on those
lines. Reading may fail the second time where it did not the first time. A search
without order sends records while it scans. Either way a failure is sent last, and
a receiver that closes the channel ends the search.
-/

namespace LogQuery.Engine

open LogQuery.Text LogQuery.Store LogQuery.Log LogQuery.Search

/-- What comes after the scan: reading the files again, and sending a failure. -/
inductive Phase
  | scanning
  | opening (rest : List (FilePath × MatchRanges))
  | reading (path : FilePath) (reader : LineReader) (ranges : MatchRanges) (last : Nat)
      (rest : List (FilePath × MatchRanges))
  | sending (record : String) (path : FilePath) (reader : LineReader) (ranges : MatchRanges)
      (last : Nat) (rest : List (FilePath × MatchRanges))
  | failing (f : Failure)
  | ended

structure Search where
  scan : Scan MatchRanges
  phase : Phase

/-- A step of the scan or of what comes after it. -/
inductive SearchEvent
  | scan (e : ScanEvent)
  | emit
deriving DecidableEq, Repr

/-- Notes the lines that match. -/
def noting (plan : Plan) : Visitor MatchRanges where
  start := .empty
  visit found line := if plan.matchesLine line.2 then found.record line.1 else found
  record? _ := none

/-- Sends the records that match. -/
def sendingAtOnce (plan : Plan) : Visitor MatchRanges where
  start := .empty
  visit found _ := found
  record? line := (plan.matchLine? line).map (Record.output plan line)

/-- What a search does with a plan, over which files, and whether order matters. The
files are scanned as they are in `fs` and read again as they are in `again`. -/
structure SearchJob where
  fs : FileSystem
  again : FileSystem
  plan : Plan
  files : List FilePath
  ordered : Bool

namespace SearchJob

variable (job : SearchJob)

def visitor : Visitor MatchRanges :=
  if job.ordered then noting job.plan else sendingAtOnce job.plan

end SearchJob

namespace Search

variable (job : SearchJob)

def start (permits : Capacity) (cancelled : Bool) (buffer : Capacity) : Search :=
  ⟨.start job.files.length permits cancelled buffer, .scanning⟩

def setChannel (s : Search) (channel : Channel Item) (phase : Phase) : Search :=
  ⟨{ s.scan with channel := channel }, phase⟩

/-- What follows when all tasks are done. -/
def afterScan (s : Search) : Search :=
  match s.scan.results? with
  | none => s
  | some results =>
    match collect results with
    | .error f => { s with phase := .failing f }
    | .ok found => { s with phase := if job.ordered then .opening (job.files.zip found) else .ended }

/-- Goes to the next file in which lines match. -/
def openNext (s : Search) : List (FilePath × MatchRanges) → Search
  | [] => { s with phase := .ended }
  | (path, ranges) :: rest =>
    match ranges.lastLine? with
    | none => { s with phase := .opening rest }
    | some last =>
      match job.again.openFile path with
      | .error e => { s with phase := .failing (.read path e) }
      | .ok file => { s with phase := .reading path (.ofOpened file) ranges last rest }

/-- Reads one line again. After the last line that matches the file is left. -/
def readAgain (s : Search) (path : FilePath) (reader : LineReader) (ranges : MatchRanges)
    (last : Nat) (rest : List (FilePath × MatchRanges)) : Search :=
  match reader.next with
  | .error e => { s with phase := .failing (.read path e) }
  | .ok none => { s with phase := .opening rest }
  | .ok (some ((number, line), reader)) =>
    if s.scan.stopped then { s with phase := .failing .cancelled }
    else if number > last then { s with phase := .opening rest }
    else
      match ranges.contains number, Record.ofLine? line with
      | true, some record =>
        { s with phase := .sending (Record.output job.plan line record) path reader ranges last rest }
      | _, _ => { s with phase := .reading path reader ranges last rest }

/-- A step after the scan. -/
def emit (s : Search) : Search :=
  match s.phase with
  | .scanning => s.afterScan job
  | .opening rest => s.openNext job rest
  | .reading path reader ranges last rest => s.readAgain job path reader ranges last rest
  | .sending record path reader ranges last rest =>
    match s.scan.channel.send (.record record) with
    | .accepted channel => s.setChannel channel (.reading path reader ranges last rest)
    | .full => s
    | .refused => { s with phase := .failing .cancelled }
  | .failing f =>
    match s.scan.channel.send (.failure f) with
    | .accepted channel => s.setChannel channel .ended
    | .full => s
    | .refused => { s with phase := .ended }
  | .ended => s

def step (s : Search) : SearchEvent → Search
  | .scan e => { s with scan := s.scan.step job.fs job.visitor job.files e }
  | .emit => s.emit job

/-- A search after some events. -/
def run (s : Search) (events : List SearchEvent) : Search := events.foldl (step job) s

/-- The items that the stream of a search carries. -/
def items (s : Search) : List Item := s.scan.channel.items

end Search

/-- The events that scan one file after the other and then send the records, each
of which is received at once. -/
def SearchJob.inTurn (job : SearchJob) : List SearchEvent :=
  (Engine.inTurn job.fs job.files).map .scan ++
    (List.replicate (total (job.files.map (stepsFor job.again)) + 4)
      [SearchEvent.emit, .scan .receive]).flatten

end LogQuery.Engine
