import LogQuery.Store.FileSystem
import LogQuery.Text.Terminator

/-!
# Lines of a log

A reader goes through the bytes of a file line by line and counts from 1. The bytes
after the last line feed are a line too, if there are any. Where reading fails, the
lines before are read, but what stands before the failure without a line feed is lost.
-/

namespace LogQuery.Log

open LogQuery.Text LogQuery.Store

/-- The bytes up to and with the first line feed, and the bytes after it. -/
def takeLine : Bytes → Bytes × Bytes
  | [] => ([], [])
  | b :: bs => if b == lineFeed then ([b], bs) else (b :: (takeLine bs).1, (takeLine bs).2)

theorem takeLine_append (bs : Bytes) : (takeLine bs).1 ++ (takeLine bs).2 = bs := by
  induction bs with
  | nil => rfl
  | cons b bs ih => unfold takeLine; split <;> simp [ih]

theorem takeLine_eq_nil {bs : Bytes} : (takeLine bs).1 = [] ↔ bs = [] := by
  cases bs with
  | nil => simp [takeLine]
  | cons b bs => unfold takeLine; split <;> simp

/-- What is left to read of a file, how many lines are read, and why reading fails
after what is left, if it does. -/
structure LineReader where
  rest : Bytes
  number : Nat
  failure : Option IoError
deriving DecidableEq, Repr

namespace LineReader

/-- A reader of bytes, none of which are hard to read. -/
def ofContent (content : Bytes) : LineReader := ⟨content, 0, none⟩

def ofOpened (file : Opened) : LineReader := ⟨file.bytes, 0, file.failure⟩

/-- The next line without its terminator, with its number; none at the end. -/
def next (r : LineReader) : Except IoError (Option ((Nat × Bytes) × LineReader)) :=
  let (line, rest) := takeLine r.rest
  let found := ((r.number + 1, stripTerminatorBytes line), { r with rest, number := r.number + 1 })
  match r.failure with
  | some e => if line.getLast? == some lineFeed then .ok (some found) else .error e
  | none => if line.isEmpty then .ok none else .ok (some found)

/-- At most `count` lines, up to a failure. -/
def readUpTo : (count : Nat) → LineReader → List (Nat × Bytes)
  | 0, _ => []
  | n + 1, r =>
    match r.next with
    | .ok (some (line, r)) => line :: readUpTo n r
    | _ => []

/-- The lines that can still be read; there are no more of them than bytes. -/
def toList (r : LineReader) : List (Nat × Bytes) := r.readUpTo r.rest.length

end LineReader

/-- The lines of a file with their numbers. -/
def numberedLines (content : Bytes) : List (Nat × Bytes) := (LineReader.ofContent content).toList

end LogQuery.Log
