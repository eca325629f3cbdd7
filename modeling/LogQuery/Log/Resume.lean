import LogQuery.Log.Lines
import LogQuery.Store.FileSystem

/-!
# Reading on in a growing log

A reader that comes back to a file goes on at the offset where it stopped, which
is always the end of a complete line. What follows the last line feed waits for
the next time. A file shorter than the offset is a new one and is read from the
start. Failures are tried again, a limited number of times.
-/

namespace LogQuery.Log

open LogQuery.Text LogQuery.Store

/-- Complete lines, at most `count`, and the bytes they take. -/
def completeLinesUpTo : (count : Nat) → Bytes → List Bytes × Nat
  | 0, _ => ([], 0)
  | n + 1, bs =>
    let (line, rest) := takeLine bs
    if line.getLast? == some lineFeed then
      let (lines, used) := completeLinesUpTo n rest
      (stripTerminatorBytes line :: lines, line.length + used)
    else ([], 0)

/-- The complete lines of some bytes, and the bytes they take. -/
def completeLines (bs : Bytes) : List Bytes × Nat := completeLinesUpTo bs.length bs

/-- Where reading goes on in a file. -/
def resumeAt (offset : Nat) (content : Bytes) : Nat :=
  if content.length < offset then 0 else offset

/-- What comes of trying to read a file: it does not open, or it is read to its
end, or reading fails after some complete lines. -/
inductive Attempt
  | unopened (e : IoError)
  | whole (content : Bytes)
  | broken (content : Bytes) (lines : Nat) (e : IoError)
deriving DecidableEq, Repr

/-- The lines an attempt gives, the offset after it, and why it failed. -/
def Attempt.read (offset : Nat) : Attempt → List Bytes × Nat × Option IoError
  | unopened e => ([], offset, some e)
  | whole content =>
    let start := resumeAt offset content
    let (lines, used) := completeLines (content.drop start)
    (lines, start + used, none)
  | broken content count e =>
    let start := resumeAt offset content
    let (lines, used) := completeLinesUpTo count (content.drop start)
    (lines, start + used, some e)

/-- How reading ends: at an offset, or given up; `pending` has tried in vain so far. -/
inductive Ending
  | reached (offset : Nat)
  | exhausted (attempts : Nat) (e : IoError)
  | pending (offset : Nat)
deriving DecidableEq, Repr

/-- What is said of a file that is given up. -/
def exhaustedMessage (path : FilePath) (attempts : Nat) (e : IoError) : String :=
  "giving up on " ++ path.text ++ " after " ++ toString attempts ++ " attempts: " ++ e.message

/-- Reads with so many attempts, of which `failed` have failed. -/
def readFrom (maxAttempts : Nat) : (failed offset : Nat) → List Attempt → List Bytes × Ending
  | _, offset, [] => ([], .pending offset)
  | failed, offset, a :: attempts =>
    match a.read offset with
    | (lines, offset, none) => (lines, .reached offset)
    | (lines, offset, some e) =>
      if failed + 1 ≥ maxAttempts then (lines, .exhausted (failed + 1) e)
      else
        let (more, ending) := readFrom maxAttempts (failed + 1) offset attempts
        (lines ++ more, ending)

/-- The lines after an offset, and how reading ends; at least one attempt is made. -/
def readNew (maxAttempts offset : Nat) (attempts : List Attempt) : List Bytes × Ending :=
  readFrom maxAttempts 0 offset attempts

/-- The attempt to read on in a file that stays as it is. -/
def attemptOn (fs : FileSystem) (p : FilePath) (offset : Nat) : Attempt :=
  match fs.openFile p with
  | .error e => .unopened e
  | .ok ⟨bytes, none⟩ => .whole bytes
  | .ok ⟨bytes, some e⟩ =>
    let content := (fs.bytes? p).getD []
    let (lines, _) := completeLines (bytes.drop (resumeAt offset content))
    .broken content lines.length e

end LogQuery.Log
