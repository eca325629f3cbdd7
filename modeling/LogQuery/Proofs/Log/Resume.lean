import LogQuery.Proofs.Log.Cut

/-!
# Resumed reading

A reader that comes back to a log delivers every complete line once. What carries
this through all its calls is that it goes on at the end of a complete line, as
`GoesOnAfter` says. An attempt keeps that, also one that fails after some lines, and so
does growth of the log, wherever it cuts a line. A file that has become shorter is read
from its start, where no line has been delivered.
-/

namespace LogQuery.Log

open LogQuery.Text LogQuery.Store

variable {content : Bytes} {done : List Bytes} {offset : Nat}

/-- Reading goes on in a content after some of its lines. -/
structure GoesOnAfter (content : Bytes) (done : List Bytes) (offset : Nat) : Prop where
  whole : ∀ line ∈ done, lineFeed ∉ line
  begins : ended done <+: content
  offset_eq : resumeAt offset content = (ended done).length

theorem resumeAt_of_le (h : offset ≤ content.length) : resumeAt offset content = offset :=
  if_neg (Nat.not_lt.mpr h)

theorem goesOnAfter_ended (hwhole : ∀ line ∈ done, lineFeed ∉ line) (hbegins : ended done <+: content) :
    GoesOnAfter content done (ended done).length :=
  ⟨hwhole, hbegins, resumeAt_of_le hbegins.length_le⟩

/-- A reader that starts, and one that comes to a file shorter than its offset, have all
lines before them. -/
theorem goesOnAfter_nil (h : offset = 0 ∨ content.length < offset) :
    GoesOnAfter content [] offset where
  whole := by simp
  begins := List.nil_prefix
  offset_eq := by
    rcases h with rfl | h
    · exact resumeAt_of_le (Nat.zero_le _)
    · exact if_pos h

/-- The lines that are left are those of the bytes after the offset. -/
theorem GoesOnAfter.cut (h : GoesOnAfter content done offset) : ∃ todo rest,
    Cut content (done ++ todo) rest ∧ Cut (content.drop (resumeAt offset content)) todo rest := by
  obtain ⟨after, rfl⟩ := h.begins
  obtain ⟨todo, rest, hcut⟩ := Cut.exists_cut after
  exact ⟨todo, rest, hcut.append h.whole, by rwa [h.offset_eq, List.drop_left]⟩

/-- Reading goes on after one more part of the lines. -/
theorem GoesOnAfter.forward (h : GoesOnAfter content done offset) {new later : List Bytes}
    {rest : Bytes} (hcut : Cut content (done ++ (new ++ later)) rest) :
    GoesOnAfter content (done ++ new) (resumeAt offset content + (ended new).length) := by
  rw [← List.append_assoc] at hcut
  rw [h.offset_eq, ← List.length_append, ← ended_append]
  exact goesOnAfter_ended (fun line hline => hcut.whole line (List.mem_append_left _ hline)) hcut.begins

/-- An attempt on a content. -/
def Attempt.Sees (content : Bytes) : Attempt → Prop
  | unopened _ => True
  | whole seen => seen = content
  | broken seen _ _ => seen = content

/-- An attempt delivers some of the next lines, and all of them if it does not fail. -/
theorem Attempt.read_goesOn {a : Attempt} (hsees : a.Sees content)
    (h : GoesOnAfter content done offset) {lines : List Bytes} {offset' : Nat} {e : Option IoError}
    (hread : a.read offset = (lines, offset', e)) :
    ∃ new, lines = new.map bare ∧ GoesOnAfter content (done ++ new) offset' ∧
      (e = none → ∃ rest, Cut content (done ++ new) rest ∧ offset' = (ended (done ++ new)).length) := by
  obtain ⟨todo, rest, hcut, hleft⟩ := h.cut
  cases a with
  | unopened e =>
    cases hread
    exact ⟨[], rfl, by simpa using h, nofun⟩
  | whole seen =>
    obtain rfl : seen = content := hsees
    rw [read, completeLines_cut hleft] at hread
    cases hread
    have hall : Cut seen (done ++ (todo ++ [])) rest := by simpa using hcut
    refine ⟨todo, rfl, h.forward hall, fun _ => ⟨rest, hcut, ?_⟩⟩
    rw [h.offset_eq, ended_append, List.length_append]
  | broken seen count e =>
    obtain rfl : seen = content := hsees
    rw [read, completeLinesUpTo_cut hleft] at hread
    cases hread
    rw [← List.take_append_drop count todo] at hcut
    exact ⟨todo.take count, rfl, h.forward hcut, nofun⟩

/-- A call that does not give up delivers all the lines that are left, and goes on at
their end the next time. -/
theorem readFrom_reached {maxAttempts failed offset' : Nat} {attempts : List Attempt}
    {lines : List Bytes} (hsees : ∀ a ∈ attempts, a.Sees content)
    (h : GoesOnAfter content done offset)
    (hread : readFrom maxAttempts failed offset attempts = (lines, .reached offset')) :
    ∃ new rest, lines = new.map bare ∧ Cut content (done ++ new) rest ∧
      offset' = (ended (done ++ new)).length := by
  induction attempts generalizing done failed offset lines with
  | nil => cases hread
  | cons a attempts ih =>
    obtain ⟨ha, hattempts⟩ := List.forall_mem_cons.mp hsees
    rw [readFrom] at hread
    generalize hr : a.read offset = r at hread
    obtain ⟨first, middle, e⟩ := r
    obtain ⟨new, rfl, hmiddle, hall⟩ := a.read_goesOn ha h hr
    cases e with
    | none =>
      cases hread
      obtain ⟨rest, hcut, hend⟩ := hall rfl
      exact ⟨new, rest, rfl, hcut, hend⟩
    | some e =>
      simp only at hread
      split at hread
      · cases hread
      · generalize hm : readFrom maxAttempts (failed + 1) middle attempts = more at hread
        obtain ⟨others, ending⟩ := more
        cases hread
        obtain ⟨new', rest, rfl, hcut, hend⟩ := ih hattempts hmiddle hm
        exact ⟨new ++ new', rest, by simp, by simpa using hcut, by simpa using hend⟩

/-- Whether an attempt fails. -/
def Attempt.fails : Attempt → Bool
  | whole _ => false
  | unopened _ | broken _ _ _ => true

theorem Attempt.read_of_fails {a : Attempt} (h : a.fails = true) (offset : Nat) :
    ∃ lines offset' e, a.read offset = (lines, offset', some e) := by
  cases a with
  | whole => cases h
  | unopened | broken => exact ⟨_, _, _, rfl⟩

/-- A call does not give up while fewer attempts fail than it makes. -/
theorem readFrom_succeeds {maxAttempts failed : Nat} {faults : List Attempt}
    (hfails : ∀ a ∈ faults, a.fails = true) (hfew : failed + faults.length < max 1 maxAttempts)
    (content : Bytes) (offset : Nat) : ∃ lines offset',
      readFrom maxAttempts failed offset (faults ++ [.whole content]) = (lines, .reached offset') := by
  induction faults generalizing failed offset with
  | nil => exact ⟨_, _, rfl⟩
  | cons a faults ih =>
    obtain ⟨ha, hfaults⟩ := List.forall_mem_cons.mp hfails
    have hfew' : failed + 1 + faults.length < max 1 maxAttempts := by
      rw [List.length_cons] at hfew
      omega
    obtain ⟨first, middle, e, hr⟩ := Attempt.read_of_fails ha offset
    obtain ⟨more, offset', hmore⟩ := ih hfaults hfew' middle
    refine ⟨first ++ more, offset', ?_⟩
    rw [List.cons_append, readFrom, hr]
    simp only
    rw [if_neg (by omega), hmore]

/-- A call goes on in a content at an offset, with some attempts that fail before one that
does not. -/
def ReadsOn (content : Bytes) (offset : Nat) (lines : List Bytes) (offset' : Nat) : Prop :=
  ∃ maxAttempts attempts, (∀ a ∈ attempts, a.Sees content) ∧
    readNew maxAttempts offset attempts = (lines, .reached offset')

/-- What becomes of a log and its reader: the content, the offset from which the next call
goes on, and all lines delivered from the file that is there. The log grows by any bytes,
and may be replaced by a content shorter than the offset before a call. -/
inductive Followed : Bytes → Nat → List Bytes → Prop
  | opened (content : Bytes) : Followed content 0 []
  | grown {content : Bytes} {offset : Nat} {lines : List Bytes} (chunk : Bytes)
      (h : Followed content offset lines) : Followed (content ++ chunk) offset lines
  | read {content : Bytes} {offset offset' : Nat} {lines new : List Bytes}
      (h : Followed content offset lines) (hread : ReadsOn content offset new offset') :
      Followed content offset' (lines ++ new)
  | replaced {content shorter : Bytes} {offset offset' : Nat} {lines new : List Bytes}
      (h : Followed content offset lines) (hshort : shorter.length < offset)
      (hread : ReadsOn shorter offset new offset') : Followed shorter offset' new

/-- All complete lines of a content are delivered, in order and each once, and the offset
stands after the last line feed. -/
def DeliversAll (content : Bytes) (delivered : List Bytes) (offset : Nat) : Prop :=
  ∃ lines rest, Cut content lines rest ∧ delivered = lines.map bare ∧
    offset + rest.length = content.length

theorem ReadsOn.delivers {lines : List Bytes} {offset' : Nat}
    (hread : ReadsOn content offset lines offset') (h : GoesOnAfter content done offset) :
    ∃ new rest, lines = new.map bare ∧ Cut content (done ++ new) rest ∧
      offset' = (ended (done ++ new)).length := by
  obtain ⟨maxAttempts, attempts, hsees, hreached⟩ := hread
  exact readFrom_reached hsees h hreached

theorem Cut.deliversAll {lines : List Bytes} {rest : Bytes} (h : Cut content lines rest) :
    DeliversAll content (lines.map bare) (ended lines).length :=
  ⟨lines, rest, h, rfl, by rw [← List.length_append, ← h.joined]⟩

/-- The next call goes on after the lines that were delivered. -/
theorem Followed.goesOnAfter {lines : List Bytes} (h : Followed content offset lines) :
    ∃ done, lines = done.map bare ∧ offset = (ended done).length ∧
      (∀ line ∈ done, lineFeed ∉ line) ∧ ended done <+: content := by
  induction h with
  | opened content => exact ⟨[], rfl, rfl, by simp, List.nil_prefix⟩
  | grown chunk _ ih =>
    obtain ⟨done, hlines, hoffset, hwhole, hbegins⟩ := ih
    exact ⟨done, hlines, hoffset, hwhole, hbegins.trans (List.prefix_append _ _)⟩
  | read _ hread ih =>
    obtain ⟨done, rfl, rfl, hwhole, hbegins⟩ := ih
    obtain ⟨new, rest, rfl, hcut, hend⟩ := hread.delivers (goesOnAfter_ended hwhole hbegins)
    exact ⟨done ++ new, List.map_append.symm, hend, hcut.whole, hcut.joined ▸ List.prefix_append _ _⟩
  | replaced _ hshort hread _ =>
    obtain ⟨new, rest, rfl, hcut, hend⟩ := hread.delivers (goesOnAfter_nil (.inr hshort))
    exact ⟨new, rfl, hend, hcut.whole, hcut.joined ▸ List.prefix_append _ _⟩

/-- However a log has grown and been read, the next call completes what was delivered to
all its complete lines, in order and each once, and returns the offset after the last line
feed. A file that has become shorter than the offset is delivered whole. A call succeeds
unless as many attempts fail as it makes. -/
theorem resumed_reading {lines : List Bytes} (h : Followed content offset lines) :
    (∀ new offset', ReadsOn content offset new offset' →
      DeliversAll content (lines ++ new) offset') ∧
    (∀ shorter new offset', shorter.length < offset → ReadsOn shorter offset new offset' →
      DeliversAll shorter new offset') ∧
    ∀ current maxAttempts faults, (∀ a ∈ faults, a.fails = true ∧ a.Sees current) →
      faults.length < max 1 maxAttempts → ∃ new offset', ReadsOn current offset new offset' ∧
        readNew maxAttempts offset (faults ++ [.whole current]) = (new, .reached offset') := by
  obtain ⟨done, rfl, hoffset, hwhole, hbegins⟩ := h.goesOnAfter
  refine ⟨fun new offset' hread => ?_, fun shorter new offset' hshort hread => ?_,
    fun current maxAttempts faults hfaults hfew => ?_⟩
  · rw [hoffset] at hread
    obtain ⟨new, rest, rfl, hcut, rfl⟩ := hread.delivers (goesOnAfter_ended hwhole hbegins)
    rw [← List.map_append]
    exact hcut.deliversAll
  · obtain ⟨new, rest, rfl, hcut, rfl⟩ := hread.delivers (goesOnAfter_nil (.inr hshort))
    exact hcut.deliversAll
  · rw [← Nat.zero_add faults.length] at hfew
    obtain ⟨new, offset', hreached⟩ :=
      readFrom_succeeds (fun a ha => (hfaults a ha).1) hfew current offset
    have hsees : ∀ a ∈ faults ++ [.whole current], a.Sees current :=
      List.forall_mem_append.mpr ⟨fun a ha => (hfaults a ha).2, by simp [Attempt.Sees]⟩
    exact ⟨new, offset', ⟨maxAttempts, _, hsees, hreached⟩, hreached⟩

/-- A log that has grown between the carriage return and the line feed of its first line,
and was read then, grows by the end of its second line. Another one is shorter than what
was read, and the first attempt to read it breaks off. -/
theorem splitLine_resumed :
    let content : Bytes := [97, 13] ++ [10, 98] ++ [10]
    let shorter : Bytes := [120, 10]
    Followed content 3 [[97]] ∧ DeliversAll content [[97], [98]] 5 ∧ DeliversAll shorter [[120]] 2 ∧
      ∃ new offset', ReadsOn content 3 new offset' ∧
        readNew 2 3 [.unopened .notFound, .whole content] = (new, .reached offset') := by
  intro content shorter
  have hfirst : ReadsOn ([97, 13] ++ [10, 98]) 0 [[97]] 3 :=
    ⟨1, [.whole ([97, 13] ++ [10, 98])], by simp [Attempt.Sees], rfl⟩
  have hread : ReadsOn content 3 [[98]] 5 := ⟨1, [.whole content], by simp [Attempt.Sees], rfl⟩
  have hshort : ReadsOn shorter 3 [[120]] 2 :=
    ⟨2, [.broken shorter 0 .isADirectory, .whole shorter], by simp [Attempt.Sees], rfl⟩
  have hfollowed : Followed content 3 [[97]] := .grown [10] (.read (.grown [10, 98] (.opened _)) hfirst)
  obtain ⟨hnext, hreplaced, hsucceeds⟩ := resumed_reading hfollowed
  exact ⟨hfollowed, hnext _ _ hread, hreplaced _ _ _ (by decide) hshort,
    hsucceeds content 2 [.unopened .notFound] (by simp [Attempt.fails, Attempt.Sees]) (by decide)⟩

end LogQuery.Log
