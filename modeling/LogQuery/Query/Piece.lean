import LogQuery.Text.Letter

/-!
# Pieces of a query text

A query text is cut into quoted literals, identifier words and single signs, in
order and without loss (`Piece.joined_cut`). Everything that looks at a query
before the grammar does looks at its pieces.
-/

namespace LogQuery.Query

open LogQuery.Text

/-- The three characters that open and close a literal. -/
def isQuote (c : Char) : Bool := c == '\'' || c == '"' || c == '\x60'

/-- A character of an identifier word. -/
def isWordChar (c : Char) : Bool := isLetterOrNumber c || c == '_'

/-- A literal keeps its quotes; a sign is any other character. -/
inductive Piece
  | literal (text : List Char)
  | word (text : List Char)
  | sign (c : Char)
deriving DecidableEq, Repr

namespace Piece

def text : Piece → List Char
  | literal cs => cs
  | word cs => cs
  | sign c => [c]

/-- What is being read; the characters read so far stand in reverse. `closing`
has read a quote that closes the literal unless the same quote follows. -/
inductive Reading
  | between
  | word (done : List Char)
  | literal (quote : Char) (done : List Char)
  | closing (quote : Char) (done : List Char)

/-- The pieces a new character completes and what is being read after it. -/
def start (c : Char) : List Piece × Reading :=
  if isQuote c then ([], .literal c [c])
  else if isWordChar c then ([], .word [c])
  else ([.sign c], .between)

/-- One more character. -/
def Reading.step (c : Char) : Reading → List Piece × Reading
  | .between => start c
  | .word done =>
    if isWordChar c then ([], .word (c :: done))
    else (.word done.reverse :: (start c).1, (start c).2)
  | .literal quote done =>
    if c == quote then ([], .closing quote (c :: done)) else ([], .literal quote (c :: done))
  | .closing quote done =>
    if c == quote then ([], .literal quote (c :: done))
    else (.literal done.reverse :: (start c).1, (start c).2)

/-- The end of the text; a literal may end here unclosed. -/
def Reading.finish : Reading → List Piece
  | .between => []
  | .word done => [.word done.reverse]
  | .literal _ done => [.literal done.reverse]
  | .closing _ done => [.literal done.reverse]

def cutFrom : Reading → List Char → List Piece
  | r, [] => r.finish
  | r, c :: cs => (r.step c).1 ++ cutFrom (r.step c).2 cs

/-- The pieces of a text. -/
def cut (cs : List Char) : List Piece := cutFrom .between cs

def joined (ps : List Piece) : List Char := ps.flatMap text

/-- The characters a reading has taken in. -/
def Reading.taken : Reading → List Char
  | .between => []
  | .word done | .literal _ done | .closing _ done => done.reverse

theorem joined_start (c : Char) :
    joined (start c).1 ++ (start c).2.taken = [c] := by
  unfold start
  split
  · simp [joined, Reading.taken]
  · split <;> simp [joined, Reading.taken, text]

theorem joined_step (c : Char) (r : Reading) :
    joined (r.step c).1 ++ (r.step c).2.taken = r.taken ++ [c] := by
  have hs := joined_start c
  cases r with
  | between => simpa [Reading.step, Reading.taken] using hs
  | word done =>
    simp only [Reading.step]
    split
    · simp [joined, Reading.taken]
    · simpa [joined, Reading.taken, text] using hs
  | literal quote done =>
    simp only [Reading.step]
    split <;> simp [joined, Reading.taken]
  | closing quote done =>
    simp only [Reading.step]
    split
    · simp [joined, Reading.taken]
    · simpa [joined, Reading.taken, text] using hs

theorem joined_cutFrom (r : Reading) (cs : List Char) :
    joined (cutFrom r cs) = r.taken ++ cs := by
  induction cs generalizing r with
  | nil => cases r <;> simp [cutFrom, Reading.finish, Reading.taken, joined, text]
  | cons c cs ih =>
    have h := joined_step c r
    have e : joined (cutFrom r (c :: cs)) =
        joined (r.step c).1 ++ joined (cutFrom (r.step c).2 cs) := by
      simp [cutFrom, joined]
    rw [e, ih, ← List.append_assoc, h]
    simp

/-- Cutting loses nothing. -/
theorem joined_cut (cs : List Char) : joined (cut cs) = cs := by
  simp [cut, joined_cutFrom, Reading.taken]

end Piece

end LogQuery.Query
