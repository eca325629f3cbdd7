import Mathlib
import LogQuery.Query.Marking

/-!
# The marks of a query

A marked query is a list of marks: characters of the query as they are, and markers in the
place of signs and of the word `date`. `written` is the text handed to the grammar, and
`meant` is what undoing every marker where it was set would give: the query itself, with
the marked words `date` in lower case.
-/

namespace LogQuery.Query

inductive Mark
  | plain (c : Char)
  | marker (m : Marker)
deriving DecidableEq, Repr

namespace Mark

def text : Mark → List Char
  | plain c => [c]
  | marker m => m.text

def meaning : Mark → List Char
  | plain c => [c]
  | marker m => m.meaning

end Mark

/-- The text of marks. -/
def written (ts : List Mark) : List Char := ts.flatMap Mark.text

/-- What marks stand for. -/
def meant (ts : List Mark) : List Char := ts.flatMap Mark.meaning

@[simp] theorem written_nil : written [] = [] := rfl

@[simp] theorem written_cons (t : Mark) (ts : List Mark) : written (t :: ts) = t.text ++ written ts :=
  rfl

@[simp] theorem written_append (ts us : List Mark) : written (ts ++ us) = written ts ++ written us :=
  List.flatMap_append

@[simp] theorem meant_nil : meant [] = [] := rfl

@[simp] theorem meant_cons (t : Mark) (ts : List Mark) : meant (t :: ts) = t.meaning ++ meant ts :=
  rfl

@[simp] theorem meant_append (ts us : List Mark) : meant (ts ++ us) = meant ts ++ meant us :=
  List.flatMap_append

@[simp] theorem written_plain (cs : List Char) : written (cs.map .plain) = cs := by
  induction cs with
  | nil => rfl
  | cons c cs ih => simp [Mark.text, ih]

@[simp] theorem meant_plain (cs : List Char) : meant (cs.map .plain) = cs := by
  induction cs with
  | nil => rfl
  | cons c cs ih => simp [Mark.meaning, ih]

/-! ## The marks of pieces -/

def wordMarks (word : List Char) (segment : Bool) : List Mark :=
  if !segment && upperAscii word == "DATE".toList then [.marker .date] else word.map .plain

def signMark (p : Position) (before : Option Char) (c : Char) (after : Option Char) : Mark :=
  if c == '-' && before.any isWordChar && after.any isWordChar && !p.afterDigits then .marker .dash
  else if c == '.' && before.any isWordOrStar && after.any isWordOrStar &&
      !(p.afterDigits && after.any Char.isDigit) then
    .marker .dot
  else if c == '*' && (before == some '.' || after == some '.') then .marker .star
  else if c == '*' && p.inSources then .marker .all
  else .plain c

def pieceMarks : Position → Option Char → List Piece → List Mark
  | _, _, [] => []
  | p, _, .literal cs :: ps => cs.map .plain ++ pieceMarks p cs.getLast? ps
  | p, before, .word w :: ps =>
    let segment := before == some '.' || firstChar ps == some '.'
    wordMarks w segment ++ pieceMarks (p.afterWord w segment) w.getLast? ps
  | p, before, .sign c :: ps =>
    signMark p before c (firstChar ps) :: pieceMarks p (some c) ps

/-- The marks of a query text. -/
def marksOf (cs : List Char) : List Mark := pieceMarks {} none (Piece.cut cs)

theorem written_wordMarks (word : List Char) (segment : Bool) :
    written (wordMarks word segment) = markWord word segment := by
  unfold wordMarks markWord
  split
  · simp [written, Mark.text]
  · exact written_plain word

theorem text_signMark (p : Position) (before : Option Char) (c : Char) (after : Option Char) :
    (signMark p before c after).text = markSign p before c after := by
  unfold signMark markSign
  rw [apply_ite Mark.text, apply_ite Mark.text, apply_ite Mark.text, apply_ite Mark.text]
  rfl

theorem written_pieceMarks (p : Position) (before : Option Char) (ps : List Piece) :
    written (pieceMarks p before ps) = markPieces p before ps := by
  induction ps generalizing p before with
  | nil => rfl
  | cons piece ps ih =>
    cases piece with
    | literal cs => simp [pieceMarks, markPieces, ih]
    | word w => simp [pieceMarks, markPieces, ih, written_wordMarks]
    | sign c => simp [pieceMarks, markPieces, ih, text_signMark]

/-- The marks of a query make its marked text. -/
theorem written_marksOf (cs : List Char) : written (marksOf cs) = markChars cs :=
  written_pieceMarks ..

/-! ## What the marks of a query stand for -/

/-- Two pieces are the same, or both are the word `date` and the second one is in lower case. -/
inductive SameButDate : Piece → Piece → Prop
  | same (p : Piece) : SameButDate p p
  | date {word : List Char} (h : lowerAscii word = "date".toList) :
    SameButDate (.word word) (.word "date".toList)

@[simp] theorem lowerAscii_append (cs ds : List Char) :
    lowerAscii (cs ++ ds) = lowerAscii cs ++ lowerAscii ds :=
  List.map_append

theorem SameButDate.lowerAscii_text {p p' : Piece} (h : SameButDate p p') :
    lowerAscii p'.text = lowerAscii p.text := by
  cases h with
  | same => rfl
  | date h =>
    rw [Piece.text, Piece.text, h]
    rfl

theorem lowerAscii_upperAscii (cs : List Char) : lowerAscii (upperAscii cs) = lowerAscii cs := by
  simp only [lowerAscii, upperAscii, List.map_map]
  exact List.map_congr_left fun c _ => Char.toLower_toUpper_eq_toLower c

/-- A marked word stands for itself, or for `date` in lower case. -/
theorem meant_wordMarks (word : List Char) (segment : Bool) :
    ∃ p, meant (wordMarks word segment) = p.text ∧ SameButDate (.word word) p := by
  unfold wordMarks
  split
  · next h =>
    simp only [Bool.and_eq_true, beq_iff_eq] at h
    refine ⟨.word "date".toList, rfl, .date ?_⟩
    rw [← lowerAscii_upperAscii, h.2]
    rfl
  · exact ⟨.word word, meant_plain word, .same _⟩

theorem meaning_signMark (p : Position) (before : Option Char) (c : Char) (after : Option Char) :
    (signMark p before c after).meaning = [c] := by
  unfold signMark
  split
  · next h =>
    simp only [Bool.and_eq_true, beq_iff_eq] at h
    simp [Mark.meaning, Marker.meaning, h.1.1.1]
  split
  · next h =>
    simp only [Bool.and_eq_true, beq_iff_eq] at h
    simp [Mark.meaning, Marker.meaning, h.1.1.1]
  split
  · next h =>
    simp only [Bool.and_eq_true, beq_iff_eq] at h
    simp [Mark.meaning, Marker.meaning, h.1]
  split
  · next h =>
    simp only [Bool.and_eq_true, beq_iff_eq] at h
    simp [Mark.meaning, Marker.meaning, h.1]
  · rfl

theorem meant_pieceMarks (p : Position) (before : Option Char) (ps : List Piece) :
    ∃ ps', meant (pieceMarks p before ps) = Piece.joined ps' ∧ List.Forall₂ SameButDate ps ps' := by
  induction ps generalizing p before with
  | nil => exact ⟨[], rfl, .nil⟩
  | cons piece ps ih =>
    cases piece with
    | literal cs =>
      obtain ⟨ps', hmeant, hsame⟩ := ih p cs.getLast?
      refine ⟨.literal cs :: ps', ?_, .cons (.same _) hsame⟩
      simp [pieceMarks, hmeant, Piece.joined, Piece.text]
    | word w =>
      let segment := before == some '.' || firstChar ps == some '.'
      obtain ⟨ps', hmeant, hsame⟩ := ih (p.afterWord w segment) w.getLast?
      obtain ⟨w', hword, hsame'⟩ := meant_wordMarks w segment
      refine ⟨w' :: ps', ?_, .cons hsame' hsame⟩
      rw [pieceMarks, meant_append, hmeant, hword]
      rfl
    | sign c =>
      obtain ⟨ps', hmeant, hsame⟩ := ih p (some c)
      refine ⟨.sign c :: ps', ?_, .cons (.same _) hsame⟩
      simp [pieceMarks, hmeant, meaning_signMark, Piece.joined, Piece.text]

/-- The marks of a query stand for the query, piece by piece and but for the words `date`. -/
theorem meant_marksOf (cs : List Char) : ∃ ps, meant (marksOf cs) = Piece.joined ps ∧
    List.Forall₂ SameButDate (Piece.cut cs) ps :=
  meant_pieceMarks ..

theorem lowerAscii_joined {ps ps' : List Piece} (h : List.Forall₂ SameButDate ps ps') :
    lowerAscii (Piece.joined ps') = lowerAscii (Piece.joined ps) := by
  induction h with
  | nil => rfl
  | cons hp _ ih => simp_all [Piece.joined, hp.lowerAscii_text]

/-- The marks of a query stand for the query up to ASCII case. -/
theorem lowerAscii_meant_marksOf (cs : List Char) :
    lowerAscii (meant (marksOf cs)) = lowerAscii cs := by
  obtain ⟨ps, hmeant, hsame⟩ := meant_marksOf cs
  rw [hmeant, lowerAscii_joined hsame, Piece.joined_cut]

end LogQuery.Query
