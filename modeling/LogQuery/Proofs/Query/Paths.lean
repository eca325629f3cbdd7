import Mathlib.Data.Bool.AllAny
import Mathlib.Data.List.TakeWhile
import LogQuery.Proofs.Query.Delimited
import LogQuery.Sql.Lexer

/-!
# Marked paths

A path is a word and, after dots, more words and stars. Marking makes one identifier of it,
but for the dots that could be the point of a number: one that stands before a digit is kept
when the last word before it is all digits, also when that word is an index of the path and
when stars stand in between. So a path is marked as one identifier exactly if no index is
followed like that by a segment that begins with a digit.
-/

namespace LogQuery.Query

open Piece

/-- An identifier word. -/
def IsWord (s : List Char) : Prop := s ≠ [] ∧ ∀ c ∈ s, isWordChar c = true

/-- A part of a path behind a dot. -/
def IsSegment (s : List Char) : Prop := IsWord s ∨ s = ['*']

instance (s : List Char) : Decidable (IsWord s) :=
  decidable_of_iff ((!s.isEmpty && s.all isWordChar) = true) (by simp [IsWord])

instance (s : List Char) : Decidable (IsSegment s) := inferInstanceAs (Decidable (_ ∨ _))

/-- A path of segments, from the dot before the first one on. -/
def dotted (segments : List (List Char)) : List Char := segments.flatMap ('.' :: ·)

/-- An index and, after stars or none, a segment that begins with a digit. -/
def IndexThenDigit (segments : List (List Char)) : Prop :=
  ∃ before index stars next after, segments = before ++ index :: (stars ++ next :: after) ∧
    index.all Char.isDigit = true ∧ (∀ s ∈ stars, s = ['*']) ∧ next.head?.any Char.isDigit = true

variable {first s : List Char} {segments : List (List Char)} {p : Position} {before : Option Char}

theorem isWordChar_star : isWordChar '*' = false := by decide

theorem isWordChar_dot : isWordChar '.' = false := by decide

theorem IsWord.ne_star (h : IsWord s) : s ≠ ['*'] := by
  rintro rfl
  exact Bool.false_ne_true (isWordChar_star.symm.trans (h.2 '*' (List.mem_singleton_self _)))

theorem intercalate_dot (first : List Char) (segments : List (List Char)) :
    ['.'].intercalate (first :: segments) = first ++ dotted segments := by
  induction segments generalizing first with
  | nil => simp [dotted, List.intercalate]
  | cons s segments ih =>
    rw [List.intercalate_cons_cons, ih, dotted, dotted, List.flatMap_cons]
    simp

/-! ## Pieces -/

def segmentPiece (s : List Char) : Piece := if s = ['*'] then .sign '*' else .word s

/-- The pieces of a path, from the dot before the first segment on. -/
def dottedPieces (segments : List (List Char)) : List Piece :=
  segments.flatMap fun s => [.sign '.', segmentPiece s]

theorem text_segmentPiece (s : List Char) : (segmentPiece s).text = s := by
  unfold segmentPiece
  split
  · next h => exact h.symm
  · rfl

theorem joined_dottedPieces (segments : List (List Char)) :
    joined (dottedPieces segments) = dotted segments := by
  have hdot : text (.sign '.') = ['.'] := rfl
  simp [joined, dottedPieces, dotted, List.flatMap_assoc, hdot, text_segmentPiece]

theorem firstChar_dottedPieces (segments : List (List Char)) :
    (firstChar (dottedPieces segments)).any isWordChar = false := by
  cases segments with
  | nil => rfl
  | cons s segments => exact isWordChar_dot

theorem delimited_dottedPieces (h : ∀ s ∈ segments, IsSegment s) :
    Delimited IsCut (dottedPieces segments) := by
  induction segments with
  | nil => exact .nil
  | cons s segments ih =>
    obtain ⟨hs, hsegments⟩ := List.forall_mem_cons.mp h
    have hpiece : IsCut (segmentPiece s) (dottedPieces segments) := by
      rcases hs with hword | rfl
      · rw [segmentPiece, if_neg hword.ne_star]
        exact ⟨hword.1, hword.2, firstChar_dottedPieces segments⟩
      · exact ⟨by decide, isWordChar_star⟩
    exact .plain ⟨by decide, isWordChar_dot⟩ (.plain hpiece (ih hsegments))

theorem cut_path (hfirst : IsWord first) (h : ∀ s ∈ segments, IsSegment s) :
    cut (first ++ dotted segments) = .word first :: dottedPieces segments := by
  have hdelimited : Delimited IsCut (.word first :: dottedPieces segments) :=
    .plain ⟨hfirst.1, hfirst.2, firstChar_dottedPieces segments⟩ (delimited_dottedPieces h)
  rw [← cut_joined hdelimited, joined_cons, joined_dottedPieces, text]

/-! ## Marking -/

/-- The marked form of segments, after a word that is all digits or another one. -/
def markedSegments : (afterDigits : Bool) → List (List Char) → List Char
  | _, [] => []
  | afterDigits, s :: segments =>
    (if afterDigits && s.head?.any Char.isDigit then ['.'] else Marker.dot.text) ++
      (if s = ['*'] then Marker.star.text else s) ++
      markedSegments (if s = ['*'] then afterDigits else s.all Char.isDigit) segments

theorem firstChar_segmentPiece (s : List Char) (ps : List Piece) :
    firstChar (segmentPiece s :: ps) = s.head? := by
  rw [firstChar, List.head?_cons, Option.bind_some, text_segmentPiece]

theorem isWordOrStar_head (h : IsSegment s) : s.head?.any isWordOrStar = true := by
  rcases h with ⟨hne, hword⟩ | rfl
  · obtain ⟨c, s, rfl⟩ := List.exists_cons_of_ne_nil hne
    simp [isWordOrStar, hword c List.mem_cons_self]
  · decide

theorem isWordOrStar_last (h : IsWord s) : s.getLast?.any isWordOrStar = true := by
  rw [List.getLast?_eq_some_getLast h.1]
  simp [isWordOrStar, h.2 _ (List.getLast_mem h.1)]

theorem markSign_dot (hbefore : before.any isWordOrStar = true) (hs : IsSegment s) :
    markSign p before '.' s.head? =
      if p.afterDigits && s.head?.any Char.isDigit then ['.'] else Marker.dot.text := by
  simp only [markSign, hbefore, isWordOrStar_head hs]
  cases p.afterDigits <;> cases s.head?.any Char.isDigit <;> rfl

/-- A dot is marked by the last word before it and the segment behind it. -/
theorem markPieces_dottedPieces (h : ∀ s ∈ segments, IsSegment s)
    (hbefore : before.any isWordOrStar = true) :
    markPieces p before (dottedPieces segments) = markedSegments p.afterDigits segments := by
  induction segments generalizing p before with
  | nil => rfl
  | cons s segments ih =>
    obtain ⟨hs, hsegments⟩ := List.forall_mem_cons.mp h
    have hpieces : dottedPieces (s :: segments) =
        .sign '.' :: segmentPiece s :: dottedPieces segments := rfl
    rw [hpieces, markPieces, firstChar_segmentPiece, markSign_dot hbefore hs, markedSegments,
      List.append_assoc]
    congr 1
    rcases hs with hword | rfl
    · rw [segmentPiece, if_neg hword.ne_star, if_neg hword.ne_star, if_neg hword.ne_star, markPieces]
      simp only [beq_self_eq_true, Bool.true_or]
      rw [ih hsegments (isWordOrStar_last hword)]
      rfl
    · rw [segmentPiece, if_pos rfl, if_pos rfl, if_pos rfl, markPieces, ih hsegments (by decide)]
      rfl

/-- The marked form of a path: its first word is beside a dot, so it is no keyword. -/
theorem markChars_path (hfirst : IsWord first) (h : ∀ s ∈ segments, IsSegment s)
    (hne : segments ≠ []) : markChars (first ++ dotted segments) =
      first ++ markedSegments (first.all Char.isDigit) segments := by
  obtain ⟨s, rest, rfl⟩ := List.exists_cons_of_ne_nil hne
  have hnext : firstChar (dottedPieces (s :: rest)) = some '.' := rfl
  rw [markChars, cut_path hfirst h, markPieces, hnext]
  simp only [beq_self_eq_true, Bool.or_true]
  rw [markPieces_dottedPieces h (isWordOrStar_last hfirst)]
  rfl

/-! ## Kept dots -/

/-- Stars or none and a segment that begins with a digit. -/
def StarsThenDigit (segments : List (List Char)) : Prop :=
  ∃ stars next after, segments = stars ++ next :: after ∧ (∀ s ∈ stars, s = ['*']) ∧
    next.head?.any Char.isDigit = true

theorem starsThenDigit_cons : StarsThenDigit (s :: segments) ↔
    s.head?.any Char.isDigit = true ∨ s = ['*'] ∧ StarsThenDigit segments := by
  constructor
  · rintro ⟨stars, next, after, hsplit, hstars, hnext⟩
    obtain ⟨rfl, hcons⟩ | ⟨stars, rfl, rfl⟩ := List.cons_eq_append_iff.mp hsplit
    · obtain ⟨rfl, rfl⟩ := List.cons.inj hcons
      exact .inl hnext
    · obtain ⟨hs, hstars⟩ := List.forall_mem_cons.mp hstars
      exact .inr ⟨hs, stars, next, after, rfl, hstars, hnext⟩
  · rintro (hs | ⟨hs, stars, next, after, rfl, hstars, hnext⟩)
    · exact ⟨[], s, segments, rfl, by simp, hs⟩
    · exact ⟨s :: stars, next, after, rfl, List.forall_mem_cons.mpr ⟨hs, hstars⟩, hnext⟩

theorem indexThenDigit_nil : ¬ IndexThenDigit [] := by
  rintro ⟨before, index, stars, next, after, h, -⟩
  simp at h

theorem indexThenDigit_cons : IndexThenDigit (s :: segments) ↔
    s.all Char.isDigit = true ∧ StarsThenDigit segments ∨ IndexThenDigit segments := by
  constructor
  · rintro ⟨before, index, stars, next, after, hsplit, hindex, hrest⟩
    obtain ⟨rfl, hcons⟩ | ⟨before, rfl, rfl⟩ := List.cons_eq_append_iff.mp hsplit
    · obtain ⟨rfl, rfl⟩ := List.cons.inj hcons
      exact .inl ⟨hindex, stars, next, after, rfl, hrest⟩
    · exact .inr ⟨before, index, stars, next, after, rfl, hindex, hrest⟩
  · rintro (⟨hs, stars, next, after, rfl, hrest⟩ | ⟨before, index, stars, next, after, rfl, hrest⟩)
    · exact ⟨[], s, stars, next, after, rfl, hs, hrest⟩
    · exact ⟨s :: before, index, stars, next, after, rfl, hrest⟩

theorem Marker.isWordChar_text (m : Marker) : ∀ c ∈ m.text, isWordChar c = true := by
  have hall : m.text.all isWordChar = true := by cases m <;> decide
  exact List.all_eq_true.mp hall

/-- A dot is kept behind digits, or where an index comes first. -/
theorem isWordChar_markedSegments (h : ∀ s ∈ segments, IsSegment s) (afterDigits : Bool) :
    (∀ c ∈ markedSegments afterDigits segments, isWordChar c = true) ↔
      ¬ (afterDigits = true ∧ StarsThenDigit segments) ∧ ¬ IndexThenDigit segments := by
  induction segments generalizing afterDigits with
  | nil =>
    have hnil : ¬ StarsThenDigit [] := by
      rintro ⟨stars, next, after, h, -⟩
      simp at h
    simp [markedSegments, hnil, indexThenDigit_nil]
  | cons s segments ih =>
    obtain ⟨hs, hsegments⟩ := List.forall_mem_cons.mp h
    have hdot : (∀ c ∈ if afterDigits && s.head?.any Char.isDigit then ['.'] else Marker.dot.text,
        isWordChar c = true) ↔ ¬ (afterDigits = true ∧ s.head?.any Char.isDigit = true) := by
      rw [← Bool.and_eq_true]
      split
      · next hkept => simp [hkept, isWordChar_dot]
      · next hmarked => exact iff_of_true Marker.dot.isWordChar_text hmarked
    have hsegment : ∀ c ∈ if s = ['*'] then Marker.star.text else s, isWordChar c = true := by
      rcases hs with hword | rfl
      · rw [if_neg hword.ne_star]
        exact hword.2
      · exact Marker.star.isWordChar_text
    rw [markedSegments, List.forall_mem_append, List.forall_mem_append, ih hsegments,
      starsThenDigit_cons, indexThenDigit_cons, hdot, and_iff_left hsegment]
    rcases hs with hword | rfl
    · simp only [hword.ne_star, if_false, false_and, or_false]
      tauto
    · simp

/-! ## Identifiers -/

section Identifiers

open Text Sql

variable {c d : Char} {cs : List Char}

theorem ne_of_isLetter (hc : isLetter c = true) (hd : d.toNat < 0x80) (hletter : d.isAlpha = false) :
    c ≠ d := by
  rintro rfl
  rw [isLetter, if_pos hd, hletter] at hc
  cases hc

theorem isDigit_of_isLetter (hc : isLetter c = true) : c.isDigit = false := by
  by_contra h
  rw [Bool.not_eq_false, isDigit_iff] at h
  rw [isLetter, if_pos (by omega), isAlpha_iff] at hc
  omega

/-- The white space beyond ASCII. -/
def wideBlanks : List Nat :=
  [0x85, 0xA0, 0x1680, 0x2000, 0x2001, 0x2002, 0x2003, 0x2004, 0x2005, 0x2006, 0x2007, 0x2008, 0x2009,
    0x200A, 0x2028, 0x2029, 0x202F, 0x205F, 0x3000]

theorem isBlank_of_isLetter (hc : isLetter c = true) : isBlank c = false := by
  by_contra h
  rw [Bool.not_eq_false] at h
  unfold isLetter at hc
  split at hc
  · next hnarrow =>
    rw [isAlpha_iff] at hc
    simp only [isBlank, Bool.or_eq_true, Bool.and_eq_true, decide_eq_true_eq, beq_iff_eq] at h
    omega
  · next hwide =>
    have hmem : c.toNat ∈ wideBlanks := by
      simp only [isBlank, Bool.or_eq_true, Bool.and_eq_true, decide_eq_true_eq, beq_iff_eq] at h
      simp only [wideBlanks, List.mem_cons, List.not_mem_nil, or_false]
      omega
    have houtside : ∀ n ∈ wideBlanks, changesInside alphabeticTable n = false := by decide +kernel
    rw [houtside _ hmem] at hc
    cases hc

/-- Before a word character a letter introduces no quoted text. -/
theorem readIntroduced_word (hcs : ∀ d rest, cs = d :: rest → isWordChar d = true) :
    readIntroduced c cs = some (readWord [c] cs) := by
  unfold readIntroduced
  split
  case h_9 => rfl
  all_goals exact absurd (hcs _ _ rfl) (by decide)

theorem readLexeme_letter (hc : isLetter c = true)
    (hcs : ∀ d rest, cs = d :: rest → isWordChar d = true) :
    readLexeme c cs = some (.token (readWord [c] cs).1, (readWord [c] cs).2) := by
  have hne : ∀ d : Char, d.toNat < 0x80 → d.isAlpha = false → (c == d) = false := by
    intro d hd hletter
    simpa using ne_of_isLetter hc hd hletter
  have hcomment : skippedComment? (c :: cs) = none := by
    unfold skippedComment?
    split
    · next h => exact absurd (List.cons.inj h).1 (ne_of_isLetter hc (by decide) (by decide))
    · next h => exact absurd (List.cons.inj h).1 (ne_of_isLetter hc (by decide) (by decide))
    · rfl
  have htoken : readToken c cs = some (readWord [c] cs) := by
    simp only [readToken, hne '\'' (by decide) (by decide), hne '"' (by decide) (by decide),
      hne '\x60' (by decide) (by decide), hne '.' (by decide) (by decide),
      hne '#' (by decide) (by decide), hne '@' (by decide) (by decide),
      hne '$' (by decide) (by decide), isDigit_of_isLetter hc, startsWord, hc, Bool.false_eq_true,
      if_false, Bool.or_self, Bool.true_or, if_true, readIntroduced_word hcs]
  rw [readLexeme, isBlank_of_isLetter hc, hcomment, htoken]
  rfl

theorem ofWord_eq_word {text : String} (h : Token.ofWord cs = .word text none) :
    text = String.ofList cs := by
  unfold Token.ofWord at h
  split at h
  · cases h
  · exact (Token.word.inj h).1.symm

/-- A text that begins like a word is one word to the grammar if the word goes on to its end. -/
theorem tokens?_eq_word_iff (hc : isLetter c = true)
    (hcs : ∀ d rest, cs = d :: rest → isWordChar d = true) (hplain : keywordOf? (c :: cs) = none) :
    tokens? (c :: cs) = some [.word (String.ofList (c :: cs)) none] ↔
      ∀ d ∈ cs, continuesWord d = true := by
  have hlexemes : lexemesFrom (c :: cs).length (c :: cs) =
      (lexemesFrom cs.length (cs.dropWhile continuesWord)).map
        (.token (.ofWord (c :: cs.takeWhile continuesWord)) :: ·) := by
    rw [List.length_cons, lexemesFrom, readLexeme_letter hc hcs]
    cases h : lexemesFrom cs.length (cs.dropWhile continuesWord) <;> simp [readWord, h]
  constructor
  · intro h
    rw [tokens?, hlexemes, Option.map_map] at h
    obtain ⟨lexemes, -, htokens⟩ := Option.map_eq_some_iff.mp h
    rw [Function.comp_apply, Lexeme.tokens, Bool.false_and, if_neg Bool.false_ne_true] at htokens
    have hword := ofWord_eq_word (List.cons.inj htokens).1
    have htake := (List.cons.inj (String.ofList_inj.mp hword)).2
    exact List.takeWhile_eq_self_iff.mp htake.symm
  · intro hall
    have htoken : Token.ofWord (c :: cs) = .word (String.ofList (c :: cs)) none := by
      rw [Token.ofWord, hplain]
    rw [tokens?, hlexemes, List.takeWhile_eq_self_iff.mpr hall, List.dropWhile_eq_nil_iff.mpr hall,
      htoken, lexemesFrom]
    simp [Lexeme.tokens]

/-- Whether two underscores stand side by side. -/
def hasUnderscores : List Char → Bool
  | [] => false
  | c :: cs => (c == '_' && cs.head? == some '_') || hasUnderscores cs

theorem hasUnderscores_of_infix (h : ['_', '_'] <:+: cs) : hasUnderscores cs = true := by
  obtain ⟨before, after, rfl⟩ := h
  induction before with
  | nil => rfl
  | cons c before ih => simpa [hasUnderscores] using .inr (by simpa using ih)

/-- The keywords by their characters, none of which has two underscores side by side. -/
theorem keywords_plain (c : Char) :
    ∀ word ∈ keywordsFrom c, ∃ cs, word = String.ofList cs ∧ hasUnderscores cs = false := by
  unfold keywordsFrom
  split <;> simp only [List.forall_mem_cons, List.not_mem_nil, false_implies, implies_true, and_true]
  all_goals repeat' apply And.intro
  all_goals exact ⟨_, rfl, rfl⟩

theorem keywordOf?_underscores (h : ['_', '_'] <:+: cs) : keywordOf? cs = none := by
  have hcapitals : ['_', '_'] <:+: cs.flatMap capitals := by
    obtain ⟨before, after, rfl⟩ := h
    exact ⟨before.flatMap capitals, after.flatMap capitals, by simp [capitals]⟩
  unfold keywordOf?
  split
  · rfl
  · next c rest hupper =>
    refine if_neg fun hmem => ?_
    obtain ⟨word, hword, hplain⟩ := keywords_plain c _ (List.contains_iff_mem.mp hmem)
    rw [← String.ofList_inj.mp hword, ← hupper, hasUnderscores_of_infix hcapitals] at hplain
    cases hplain

end Identifiers

section Paths

open Sql

theorem mem_markedSegments {c : Char} {afterDigits : Bool} (hc : c ∈ markedSegments afterDigits segments) :
    c = '.' ∨ (∃ m : Marker, c ∈ m.text) ∨ ∃ s ∈ segments, s ≠ ['*'] ∧ c ∈ s := by
  induction segments generalizing afterDigits with
  | nil => cases hc
  | cons s segments ih =>
    rw [markedSegments, List.mem_append, List.mem_append] at hc
    rcases hc with (hdot | hsegment) | hrest
    · split at hdot
      · exact .inl (List.mem_singleton.mp hdot)
      · exact .inr (.inl ⟨_, hdot⟩)
    · split at hsegment
      · exact .inr (.inl ⟨_, hsegment⟩)
      · next hs => exact .inr (.inr ⟨s, List.mem_cons_self, hs, hsegment⟩)
    · rcases ih hrest with h | h | ⟨s', hs', h⟩
      · exact .inl h
      · exact .inr (.inl h)
      · exact .inr (.inr ⟨s', List.mem_cons_of_mem _ hs', h⟩)

/-- To the grammar, too, a dot is all that can end the word. -/
theorem continuesWord_markedSegments {c : Char} {afterDigits : Bool}
    (h : ∀ s ∈ segments, s ≠ ['*'] → ∀ d ∈ s, isWordChar d = true ∧ continuesWord d = true)
    (hc : c ∈ markedSegments afterDigits segments) : continuesWord c = isWordChar c := by
  have hmarkers : ∀ m : Marker, ∀ d ∈ m.text, continuesWord d = true := by
    intro m
    have hall : m.text.all continuesWord = true := by cases m <;> decide
    exact List.all_eq_true.mp hall
  rcases mem_markedSegments hc with rfl | ⟨m, hm⟩ | ⟨s, hs, hstar, hmem⟩
  · decide
  · rw [hmarkers m c hm, m.isWordChar_text c hm]
  · rw [(h s hs hstar c hmem).1, (h s hs hstar c hmem).2]

/-- A path becomes one identifier, which is one word to the grammar, exactly if no index of
it is followed by a segment that begins with a digit, with stars in between or none. Of the
characters of identifiers the grammar takes only letters, digits and underscores into words. -/
theorem path_identifier (hfirst : IsWord first) (hletter : first.head?.any Text.isLetter = true)
    (h : ∀ s ∈ segments, IsSegment s) (hne : segments ≠ []) :
    let marked := markChars (['.'].intercalate (first :: segments))
    ((∀ c ∈ marked, isWordChar c = true) ↔ ¬ IndexThenDigit (first :: segments)) ∧
    ((∀ s ∈ first :: segments, s ≠ ['*'] → ∀ c ∈ s, continuesWord c = true) →
      (tokens? marked = some [.word (String.ofList marked) none] ↔
        ¬ IndexThenDigit (first :: segments))) := by
  intro marked
  obtain ⟨c, w, rfl⟩ := List.exists_cons_of_ne_nil hfirst.1
  obtain ⟨s, rest, rfl⟩ := List.exists_cons_of_ne_nil hne
  have hc : Text.isLetter c = true := hletter
  have hdigits : (c :: w).all Char.isDigit = false := by simp [isDigit_of_isLetter hc]
  have hmarked : marked = c :: (w ++ markedSegments false (s :: rest)) := by
    rw [← hdigits, ← List.cons_append, ← markChars_path hfirst h hne, ← intercalate_dot]
  have hchars : (∀ d ∈ marked, isWordChar d = true) ↔ ¬ IndexThenDigit ((c :: w) :: s :: rest) := by
    rw [hmarked, ← List.cons_append, List.forall_mem_append, isWordChar_markedSegments h,
      and_iff_right hfirst.2, indexThenDigit_cons (s := c :: w), hdigits]
    simp
  refine ⟨hchars, fun hwords => ?_⟩
  obtain ⟨hcw, hsegments⟩ := List.forall_mem_cons.mp hwords
  have hunderscores : ['_', '_'] <:+: marked := by
    rw [hmarked, ← List.cons_append, markedSegments, Bool.false_and, if_neg Bool.false_ne_true,
      List.append_assoc]
    have hdot : ['_', '_'] <+: Marker.dot.text := by decide
    exact (hdot.trans (List.prefix_append ..)).isInfix.trans (List.suffix_append ..).isInfix
  have hhead : ∀ d tail, w ++ markedSegments false (s :: rest) = d :: tail → isWordChar d = true := by
    intro d tail hd
    cases w with
    | nil =>
      rw [markedSegments, Bool.false_and, if_neg Bool.false_ne_true] at hd
      rw [← (List.cons.inj hd).1]
      decide
    | cons d' w =>
      rw [← (List.cons.inj hd).1]
      exact hfirst.2 d' (by simp)
  have hcontinues : ∀ d ∈ marked, continuesWord d = isWordChar d := by
    rw [hmarked, ← List.cons_append, List.forall_mem_append]
    refine ⟨fun d hd => ?_, fun d => continuesWord_markedSegments fun t ht hstar e he => ?_⟩
    · rw [hcw hfirst.ne_star d hd, hfirst.2 d hd]
    · have hword : IsWord t := (h t ht).resolve_right hstar
      exact ⟨hword.2 e he, hsegments t ht hstar e he⟩
  have hplain : keywordOf? marked = none := keywordOf?_underscores hunderscores
  rw [← hchars]
  rw [hmarked] at hplain hcontinues ⊢
  rw [tokens?_eq_word_iff hc hhead hplain, List.forall_mem_cons,
    and_iff_right (hfirst.2 c List.mem_cons_self)]
  exact forall₂_congr fun d hd => by rw [hcontinues d (List.mem_cons_of_mem _ hd)]

/-- An index before a star and a word, and a word before a segment that begins with a digit. -/
def starredPath : List (List Char) := ["0", "*", "a1", "2x"].map String.toList

theorem path_identifier_starred : IsWord "line".toList ∧
    "line".toList.head?.any Text.isLetter = true ∧ (∀ s ∈ starredPath, IsSegment s) ∧
    starredPath ≠ [] ∧ ¬ IndexThenDigit ("line".toList :: starredPath) ∧
    tokens? (markChars "line.0.*.a1.2x".toList) =
      some [.word "line__dot__0__dot____star____dot__a1__dot__2x" none] := by
  have hfirst : IsWord "line".toList := by decide +kernel
  have hletter : "line".toList.head?.any Text.isLetter = true := by decide +kernel
  have hsegments : ∀ s ∈ starredPath, IsSegment s := List.all_iff_forall_prop.mp (by decide +kernel)
  have hne : starredPath ≠ [] := by decide +kernel
  obtain ⟨hchars, htokens⟩ := path_identifier hfirst hletter hsegments hne
  have hpath : ['.'].intercalate ("line".toList :: starredPath) = "line.0.*.a1.2x".toList := by
    decide +kernel
  have hmarked : String.ofList (markChars "line.0.*.a1.2x".toList) =
      "line__dot__0__dot____star____dot__a1__dot__2x" := by decide +kernel
  rw [hpath] at hchars htokens
  have hindex : ¬ IndexThenDigit ("line".toList :: starredPath) :=
    hchars.mp (List.all_eq_true.mp (by decide +kernel))
  have hwords : ∀ s ∈ "line".toList :: starredPath, s ≠ ['*'] → ∀ c ∈ s, continuesWord c = true := by
    have hall : (("line".toList :: starredPath).all
        fun s => s == ['*'] || s.all continuesWord) = true := by
      decide +kernel
    simpa only [List.all_eq_true, Bool.or_eq_true, beq_iff_eq, or_iff_not_imp_left] using hall
  refine ⟨hfirst, hletter, hsegments, hne, hindex, ?_⟩
  rw [← hmarked]
  exact (htokens hwords).mpr hindex

/-- The dot between two indexes is kept like the point of a number. -/
theorem nested_index_cut : IsWord "line".toList ∧ "line".toList.head?.any Text.isLetter = true ∧
    (∀ s ∈ ["0".toList, "1".toList], IsSegment s) ∧
    ['.'].intercalate ["line".toList, "0".toList, "1".toList] = "line.0.1".toList ∧
    (Marked.ofString "line.0.1").text = "line__dot__0.1" ∧
    ¬ ∀ c ∈ markChars "line.0.1".toList, isWordChar c = true := by
  have hsegments : ∀ s ∈ ["0".toList, "1".toList], IsSegment s :=
    List.all_iff_forall_prop.mp (by decide +kernel)
  have hdot : (markChars "line.0.1".toList).all isWordChar = false := by decide +kernel
  refine ⟨by decide +kernel, by decide +kernel, hsegments, by decide +kernel, by decide +kernel, ?_⟩
  rw [← List.all_eq_true, hdot]
  exact Bool.false_ne_true

end Paths

end LogQuery.Query
