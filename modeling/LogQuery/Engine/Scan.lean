import LogQuery.Engine.Channel
import LogQuery.Log.Lines
import LogQuery.Store.FileSystem

/-!
# Scans

A scan reads several files at once, one task a file, with no more tasks at work
than there are permits. It goes on by events in any order: a step of a task, the
cancellation of the query, and what the receiver of its records does. A task that
fails cancels the others, so among the failures of a scan the one that is no
cancellation is its cause.
-/

namespace LogQuery.Engine

open LogQuery.Text LogQuery.Store LogQuery.Log

/-- Why a query over files fails. -/
inductive Failure
  | read (path : FilePath) (e : IoError)
  | cancelled
deriving DecidableEq, Repr

def Failure.message : Failure → String
  | read path e => "failed to read " ++ path.text ++ ": " ++ e.message
  | cancelled => "query cancelled"

/-- An item of a stream of records; a failure is the last one. -/
inductive Item
  | record (text : String)
  | failure (f : Failure)
deriving DecidableEq, Repr

/-- What a scan makes of the lines of a file: what it finds, and which records it
sends on at once. -/
structure Visitor (α : Type) where
  start : α
  visit : α → Nat × Bytes → α
  record? : Bytes → Option String

/-- A task waits for a permit, opens its file, and reads it line by line; it may
have a record to send before it reads on. -/
inductive Task (α : Type)
  | waiting
  | opening
  | reading (reader : LineReader) (found : α)
  | sending (reader : LineReader) (found : α) (record : String)
  | finished (result : Except Failure α)

namespace Task

variable {α : Type}

/-- Whether a task holds a permit. -/
def isAtWork : Task α → Bool
  | waiting | finished _ => false
  | _ => true

/-- The result of a task, once it has one. -/
def result? : Task α → Option (Except Failure α)
  | finished r => some r
  | _ => none

end Task

/-- The tasks stand in the order of their files. `stopped` says that the query is
cancelled or that a task has failed. -/
structure Scan (α : Type) where
  tasks : List (Task α)
  permits : Nat
  stopped : Bool
  channel : Channel Item

/-- What may happen next. -/
inductive ScanEvent
  | advance (task : Nat)
  | cancel
  | receive
  | close
deriving DecidableEq, Repr

namespace Scan

variable {α : Type} (fs : FileSystem) (visitor : Visitor α)

/-- A scan of so many files before its first event; it has one permit at least. -/
def start (files : Nat) (permits : Capacity) (cancelled : Bool) (buffer : Capacity) : Scan α :=
  ⟨List.replicate files .waiting, max 1 permits.val, cancelled, .ofCapacity buffer⟩

/-- Puts a task in the place of another one. -/
def setTask (s : Scan α) (i : Nat) (t : Task α) : Scan α := { s with tasks := s.tasks.set i t }

/-- The end of a task that held a permit. -/
def finish (s : Scan α) (i : Nat) (result : Except Failure α) : Scan α :=
  { s.setTask i (.finished result) with
    permits := s.permits + 1
    stopped := s.stopped || !result.isOk }

@[simp] theorem setTask_tasks (s : Scan α) (i : Nat) (t : Task α) :
    (s.setTask i t).tasks = s.tasks.set i t := rfl
@[simp] theorem setTask_permits (s : Scan α) (i : Nat) (t : Task α) :
    (s.setTask i t).permits = s.permits := rfl
@[simp] theorem setTask_stopped (s : Scan α) (i : Nat) (t : Task α) :
    (s.setTask i t).stopped = s.stopped := rfl
@[simp] theorem setTask_channel (s : Scan α) (i : Nat) (t : Task α) :
    (s.setTask i t).channel = s.channel := rfl

@[simp] theorem finish_tasks (s : Scan α) (i : Nat) (r : Except Failure α) :
    (s.finish i r).tasks = s.tasks.set i (.finished r) := rfl
@[simp] theorem finish_permits (s : Scan α) (i : Nat) (r : Except Failure α) :
    (s.finish i r).permits = s.permits + 1 := rfl
@[simp] theorem finish_channel (s : Scan α) (i : Nat) (r : Except Failure α) :
    (s.finish i r).channel = s.channel := rfl
@[simp] theorem finish_ok_stopped (s : Scan α) (i : Nat) (a : α) :
    (s.finish i (.ok a)).stopped = s.stopped := Bool.or_false _
@[simp] theorem finish_error_stopped (s : Scan α) (i : Nat) (f : Failure) :
    (s.finish i (.error f)).stopped = true := Bool.or_true _

/-- A step of a task that waits. -/
def grant (s : Scan α) (i : Nat) : Scan α :=
  if s.stopped then s.setTask i (.finished (.error .cancelled))
  else if s.permits == 0 then s
  else { s.setTask i .opening with permits := s.permits - 1 }

/-- A step of a task that reads. The query may be cancelled before each line. -/
def readLine (s : Scan α) (i : Nat) (path : FilePath) (reader : LineReader) (found : α) : Scan α :=
  match reader.next with
  | .error e => s.finish i (.error (.read path e))
  | .ok none => s.finish i (.ok found)
  | .ok (some (line, reader)) =>
    if s.stopped then s.finish i (.error .cancelled)
    else
      let found := visitor.visit found line
      match visitor.record? line.2 with
      | none => s.setTask i (.reading reader found)
      | some record => s.setTask i (.sending reader found record)

/-- A step of a task that has a record to send. -/
def sendRecord (s : Scan α) (i : Nat) (reader : LineReader) (found : α) (record : String) : Scan α :=
  match s.channel.send (.record record) with
  | .accepted channel => { s.setTask i (.reading reader found) with channel := channel }
  | .full => s
  | .refused => s.finish i (.error .cancelled)

/-- A step of one task. -/
def advance (files : List FilePath) (s : Scan α) (i : Nat) : Scan α :=
  match s.tasks[i]?, files[i]? with
  | some .waiting, some _ => s.grant i
  | some .opening, some path =>
    match fs.openFile path with
    | .ok file => s.setTask i (.reading (.ofOpened file) visitor.start)
    | .error e => s.finish i (.error (.read path e))
  | some (.reading reader found), some path => s.readLine visitor i path reader found
  | some (.sending reader found record), _ => s.sendRecord i reader found record
  | _, _ => s

def step (files : List FilePath) (s : Scan α) : ScanEvent → Scan α
  | .advance i => s.advance fs visitor files i
  | .cancel => { s with stopped := true }
  | .receive => { s with channel := s.channel.receive }
  | .close => { s with stopped := true, channel := s.channel.close }

/-- A scan after some events. -/
def run (files : List FilePath) (s : Scan α) (events : List ScanEvent) : Scan α :=
  events.foldl (step fs visitor files) s

/-- The results of all tasks, once all have one. -/
def results? (s : Scan α) : Option (List (Except Failure α)) := s.tasks.mapM Task.result?

end Scan

/-- The first failure that is no cancellation, or else a cancellation. -/
def cause : List Failure → Option Failure
  | [] => none
  | .cancelled :: fs => (cause fs).or (some .cancelled)
  | f :: _ => some f

/-- The failure in a result. -/
def failure? {α : Type} : Except Failure α → Option Failure
  | .ok _ => none
  | .error f => some f

/-- What all tasks found, or the cause why some failed. -/
def collect {α : Type} (results : List (Except Failure α)) : Except Failure (List α) :=
  match cause (results.filterMap failure?) with
  | some f => .error f
  | none => .ok (results.filterMap Except.toOption)

/-- How many steps a task on a file may need. -/
def stepsFor (fs : FileSystem) (path : FilePath) : Nat :=
  match fs.openFile path with
  | .ok file => 2 * (LineReader.ofOpened file).toList.length + 4
  | .error _ => 4

/-- The events that run one task after the other, each record being received at once. -/
def inTurn (fs : FileSystem) (files : List FilePath) : List ScanEvent :=
  files.zipIdx.flatMap fun (path, i) =>
    (List.replicate (stepsFor fs path) [ScanEvent.advance i, .receive]).flatten

end LogQuery.Engine
