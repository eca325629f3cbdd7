import Mathlib.Data.List.Basic
import LogQuery.Log.Resume
import LogQuery.Proofs.Log.Numbering

/-!
# Contents cut at their line feeds

`Cut` says without any reader what the lines of a content are: bytes without a line
feed that are followed by one, and what comes after the last line feed. Every content can
be cut like this, and the lines of a cut are what both readers of logs give.
-/

namespace LogQuery.Log

open LogQuery.Text

/-- Lines with their line feeds, one after the other. -/
def ended (lines : List Bytes) : Bytes := lines.flatMap (· ++ [lineFeed])

@[simp] theorem ended_nil : ended [] = [] := rfl

@[simp] theorem ended_cons (line : Bytes) (lines : List Bytes) :
    ended (line :: lines) = line ++ lineFeed :: ended lines := by
  simp [ended]

@[simp] theorem ended_append (before after : List Bytes) :
    ended (before ++ after) = ended before ++ ended after :=
  List.flatMap_append

/-- A content consists of lines that end in a line feed and of a rest without one. -/
structure Cut (content : Bytes) (lines : List Bytes) (rest : Bytes) : Prop where
  joined : content = ended lines ++ rest
  whole : ∀ line ∈ lines, lineFeed ∉ line
  unended : lineFeed ∉ rest

/-- What a reader delivers of a line: a carriage return before the line feed is no part of it. -/
def bare (line : Bytes) : Bytes := dropLastIf carriageReturn line

namespace Cut

variable {content before after rest : Bytes} {lines more : List Bytes} {line : Bytes}

theorem append (h : Cut after more rest) (hwhole : ∀ line ∈ lines, lineFeed ∉ line) :
    Cut (ended lines ++ after) (lines ++ more) rest where
  joined := by rw [h.joined, ended_append, List.append_assoc]
  whole := List.forall_mem_append.mpr ⟨hwhole, h.whole⟩
  unended := h.unended

theorem begins (h : Cut content (lines ++ more) rest) : ended lines <+: content := by
  rw [h.joined, ended_append, List.append_assoc]
  exact List.prefix_append ..

theorem head (h : Cut content (line :: lines) rest) :
    lineFeed ∉ line ∧ content = line ++ lineFeed :: (ended lines ++ rest) := by
  refine ⟨h.whole line List.mem_cons_self, ?_⟩
  rw [h.joined, ended_cons, List.append_assoc, List.cons_append]

theorem tail (h : Cut content (line :: lines) rest) : Cut (ended lines ++ rest) lines rest where
  joined := rfl
  whole := fun line hline => h.whole line (List.mem_cons_of_mem _ hline)
  unended := h.unended

/-- Nothing is left after a line feed at the end. -/
theorem rest_eq_nil (h : Cut content lines rest)
    (hlast : content = [] ∨ content.getLast? = some lineFeed) : rest = [] := by
  rw [h.joined] at hlast
  by_contra hne
  rcases hlast with hnil | hlast
  · exact hne (List.append_eq_nil_iff.mp hnil).2
  · rw [List.getLast?_append_of_ne_nil _ hne] at hlast
    exact h.unended (List.mem_of_getLast? hlast)

/-- Every content can be cut. -/
theorem exists_cut (content : Bytes) : ∃ lines rest, Cut content lines rest := by
  induction hn : content.length using Nat.strongRecOn generalizing content with
  | ind n ih =>
    by_cases hmem : lineFeed ∈ content
    · obtain ⟨line, after, rfl, hline⟩ := List.eq_append_cons_of_mem hmem
      obtain ⟨lines, rest, hcut⟩ := ih after.length (by simp [← hn]; omega) after rfl
      have hmore : Cut (ended [line] ++ after) ([line] ++ lines) rest :=
        hcut.append (by simpa using hline)
      exact ⟨line :: lines, rest, by simpa using hmore⟩
    · exact ⟨[], content, rfl, by simp, hmem⟩

end Cut

section Reading

variable {content rest line : Bytes} {lines : List Bytes}

theorem takeLine_line (h : lineFeed ∉ line) (after : Bytes) :
    takeLine (line ++ lineFeed :: after) = (line ++ [lineFeed], after) := by
  induction line with
  | nil => simp [takeLine]
  | cons b line ih =>
    obtain ⟨hb, hline⟩ := not_or.mp (List.mem_cons.not.mp h)
    rw [List.cons_append, takeLine, if_neg (by simpa using Ne.symm hb), ih hline]
    rfl

theorem takeLine_rest (h : lineFeed ∉ rest) : takeLine rest = (rest, []) := by
  induction rest with
  | nil => rfl
  | cons b rest ih =>
    obtain ⟨hb, hrest⟩ := not_or.mp (List.mem_cons.not.mp h)
    rw [takeLine, if_neg (by simpa using Ne.symm hb), ih hrest]

/-- The lines at the start of a content are the first of its lines. -/
theorem Cut.prefix_of_begins {more : List Bytes} (h : Cut content lines rest)
    (hwhole : ∀ line ∈ more, lineFeed ∉ line) (hbegins : ended more <+: content) :
    more <+: lines := by
  obtain ⟨after, hafter⟩ := hbegins
  induction more generalizing content lines with
  | nil => exact List.nil_prefix
  | cons line more ih =>
    obtain ⟨hline, hmore⟩ := List.forall_mem_cons.mp hwhole
    rw [ended_cons, List.append_assoc, List.cons_append] at hafter
    cases lines with
    | nil =>
      have hfeed : lineFeed ∈ content := by simp [← hafter]
      rw [h.joined] at hfeed
      exact absurd hfeed h.unended
    | cons first lines =>
      have hfirst := congrArg takeLine (hafter.trans h.head.2)
      rw [takeLine_line hline, takeLine_line h.head.1] at hfirst
      obtain ⟨heq, htail⟩ := Prod.mk.inj hfirst
      obtain rfl := List.append_cancel_right heq
      exact (List.prefix_cons_inj line).mpr (ih h.tail hmore htail)

/-- A content can be cut in one way only. -/
theorem Cut.unique {more : List Bytes} {rest' : Bytes} (h : Cut content lines rest)
    (h' : Cut content more rest') : lines = more ∧ rest = rest' := by
  have hbegins : ended lines <+: content := h.joined ▸ List.prefix_append ..
  have hbegins' : ended more <+: content := h'.joined ▸ List.prefix_append ..
  obtain rfl : lines = more := (h'.prefix_of_begins h.whole hbegins).eq_of_length_le
    (h.prefix_of_begins h'.whole hbegins').length_le
  exact ⟨rfl, List.append_cancel_left (h.joined.symm.trans h'.joined)⟩

theorem stripTerminatorBytes_line (line : Bytes) :
    stripTerminatorBytes (line ++ [lineFeed]) = bare line := by
  simp [stripTerminatorBytes, dropLastIf, bare]

theorem stripTerminatorBytes_rest (h : lineFeed ∉ rest) : stripTerminatorBytes rest = bare rest := by
  have hlast : rest.getLast? ≠ some lineFeed := fun he => h (List.mem_of_getLast? he)
  rw [stripTerminatorBytes, bare, dropLastIf.eq_1 lineFeed, if_neg (by simpa using hlast)]

/-- The reader of complete lines gives the first lines, and the bytes up to their end. -/
theorem completeLinesUpTo_cut (h : Cut content lines rest) (n : Nat) :
    completeLinesUpTo n content = ((lines.take n).map bare, (ended (lines.take n)).length) := by
  induction n generalizing content lines with
  | zero => simp [completeLinesUpTo]
  | succ n ih =>
    rw [completeLinesUpTo, h.joined]
    cases lines with
    | nil =>
      have hlast : rest.getLast? ≠ some lineFeed := fun he => h.unended (List.mem_of_getLast? he)
      simp [takeLine_rest h.unended, hlast]
    | cons line lines =>
      rw [← h.joined, h.head.2, takeLine_line h.head.1]
      simp [ih h.tail, stripTerminatorBytes_line, Nat.add_assoc, Nat.add_comm 1]

theorem length_le_ended (lines : List Bytes) : lines.length ≤ (ended lines).length := by
  induction lines with
  | nil => exact Nat.le_refl 0
  | cons line lines ih =>
    rw [ended_cons, List.length_append, List.length_cons, List.length_cons]
    omega

theorem completeLines_cut (h : Cut content lines rest) :
    completeLines content = (lines.map bare, (ended lines).length) := by
  have hcount : lines.length ≤ content.length := by
    rw [h.joined, List.length_append]
    exact Nat.le_add_right_of_le (length_le_ended lines)
  rw [completeLines, completeLinesUpTo_cut h, List.take_of_length_le hcount]

theorem next_line (h : lineFeed ∉ line) (after : Bytes) (number : Nat) :
    (LineReader.mk (line ++ lineFeed :: after) number none).next =
      .ok (some ((number + 1, bare line), ⟨after, number + 1, none⟩)) := by
  simp [LineReader.next, takeLine_line h, stripTerminatorBytes_line]

theorem next_rest (h : lineFeed ∉ rest) (hne : rest ≠ []) (number : Nat) :
    (LineReader.mk rest number none).next =
      .ok (some ((number + 1, bare rest), ⟨[], number + 1, none⟩)) := by
  simp [LineReader.next, takeLine_rest h, stripTerminatorBytes_rest h, hne]

/-- The reader of a whole file also gives the rest as a line, if there is one. -/
theorem map_snd_toList (h : Cut content lines rest) (number : Nat) :
    (LineReader.mk content number none).toList.map Prod.snd =
      (lines ++ if rest = [] then [] else [rest]).map bare := by
  induction lines generalizing content number with
  | nil =>
    obtain rfl : content = rest := h.joined
    by_cases hrest : content = []
    · rw [LineReader.toList_of_next_none (LineReader.next_eq_none.mpr ⟨rfl, hrest⟩), if_pos hrest]
      rfl
    · rw [LineReader.toList_of_next_some (next_rest h.unended hrest number), if_neg hrest]
      rfl
  | cons line lines ih =>
    rw [h.head.2, LineReader.toList_of_next_some (next_line h.head.1 _ number), List.map_cons,
      ih h.tail]
    rfl

theorem map_snd_numberedLines (h : Cut content lines rest) :
    (numberedLines content).map Prod.snd =
      (lines ++ if rest = [] then [] else [rest]).map bare :=
  map_snd_toList h 0

/-- The lines of a file have no line feed. -/
theorem lineFeed_not_mem_numberedLines {l : Nat × Bytes} (hl : l ∈ numberedLines content) :
    lineFeed ∉ l.2 := by
  obtain ⟨lines, rest, h⟩ := Cut.exists_cut content
  have hmem : l.2 ∈ (numberedLines content).map Prod.snd := List.mem_map_of_mem hl
  rw [map_snd_numberedLines h] at hmem
  obtain ⟨line, hline, hbare⟩ := List.mem_map.mp hmem
  have hwhole : lineFeed ∉ line := by
    rcases List.mem_append.mp hline with hline | hline
    · exact h.whole line hline
    · split at hline
      · cases hline
      · rw [List.mem_singleton.mp hline]
        exact h.unended
  rw [← hbare]
  exact fun hfeed => hwhole (mem_of_mem_dropLastIf hfeed)

theorem bare_eq_self (h : line.getLast? ≠ some carriageReturn) : bare line = line :=
  if_neg (by simpa using h)

/-- Lines that are joined are cut again; the last of them is the rest. -/
theorem cut_intercalate (hlines : ∀ line ∈ lines, lineFeed ∉ line) (hne : lines ≠ []) :
    Cut ([lineFeed].intercalate lines) lines.dropLast (lines.getLast hne) := by
  induction lines with
  | nil => exact absurd rfl hne
  | cons line lines ih =>
    obtain ⟨hline, hmore⟩ := List.forall_mem_cons.mp hlines
    cases lines with
    | nil => exact ⟨by simp, by simp, hline⟩
    | cons next lines =>
      -- a line feed stands only between two lines
      have hcut : Cut (ended [line] ++ [lineFeed].intercalate (next :: lines)) _ _ :=
        (ih hmore (List.cons_ne_nil next lines)).append (by simpa using hline)
      rw [List.intercalate_cons_cons, List.dropLast_cons_of_ne_nil (List.cons_ne_nil next lines),
        List.getLast_cons (List.cons_ne_nil next lines)]
      simpa using hcut

/-- The reader of a file gives lines that were joined as they are; only a blank last one
is no line of the file. -/
theorem numberedLines_intercalate (hlines : ∀ line ∈ lines, lineFeed ∉ line)
    (hbare : ∀ line ∈ lines, line.getLast? ≠ some carriageReturn) :
    ∃ blank, lines = (numberedLines ([lineFeed].intercalate lines)).map Prod.snd ++ blank ∧
      ∀ line ∈ blank, line = [] := by
  have hmap : lines.map bare = lines := by
    conv_rhs => rw [← List.map_id lines]
    exact List.map_congr_left fun line hline => bare_eq_self (hbare line hline)
  by_cases hne : lines = []
  · subst hne
    exact ⟨[], rfl, nofun⟩
  · have hsplit : lines.dropLast ++ [lines.getLast hne] = lines := List.dropLast_append_getLast hne
    rw [map_snd_numberedLines (cut_intercalate hlines hne)]
    by_cases hlast : lines.getLast hne = []
    · refine ⟨[[]], ?_, by simp⟩
      rw [if_pos hlast, List.append_nil, List.map_dropLast, hmap, ← hlast, hsplit]
    · refine ⟨[], ?_, nofun⟩
      rw [if_neg hlast, hsplit, hmap, List.append_nil]

end Reading

end LogQuery.Log
