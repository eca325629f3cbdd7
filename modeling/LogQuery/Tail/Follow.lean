import LogQuery.Live.Broadcaster
import LogQuery.Log.Resume
import LogQuery.Tail.Wrap

/-!
# Following a file

A follower starts at the end of a file and polls it. A poll brings the lines that
are complete by then and were not brought before, and they are ingested as
records. A file that cannot be read, however often it is tried, ends the following.
-/

namespace LogQuery.Tail

open LogQuery.Text LogQuery.Log LogQuery.Live

/-- Where a follower goes on, unless it has ended. -/
structure Follower where
  offset : Nat
  ended : Bool
deriving DecidableEq, Repr

/-- How often a poll tries to read the file. -/
def maxAttempts : Nat := 5

namespace Follower

/-- Starts at the end of a file, or at its start if there is none yet. -/
def start (content : Option Bytes) : Follower := ⟨content.elim 0 List.length, false⟩

/-- Polls the file. The lines of a poll that fails in the end are dropped. -/
def poll (f : Follower) (attempts : List Attempt) : Follower × List Bytes :=
  if f.ended then (f, [])
  else
    match readNew maxAttempts f.offset attempts with
    | (lines, .reached offset) => ({ f with offset := offset }, lines)
    | (_, .exhausted _ _) => ({ f with ended := true }, [])
    | (_, .pending _) => (f, [])

end Follower

/-- Ingests lines, each with the time it was read at. -/
def ingestLines (source hostname : String) (b : Broadcaster) (lines : List (String × Bytes)) :
    Broadcaster :=
  lines.foldl (fun b (time, line) => b.ingest source (wrapLine hostname time line)) b

end LogQuery.Tail
