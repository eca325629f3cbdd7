import LogQuery.Tail.Follow
import LogQuery.Proofs.Log.Resume

/-!
# Followed files

A follower starts at the end of a file, which may be inside of a line. It ingests the lines of
what is appended from then on, in order and each once, whenever it looks and however the file
has grown by then. So the first of them lacks the part of its line that was there before, and
all others are lines of the file.
-/

namespace LogQuery.Tail

open LogQuery.Text LogQuery.Log LogQuery.Store LogQuery.Live

section Attempts

variable {initial appended later : Bytes} {done lines : List Bytes} {attempts : List Attempt}

/-- Lines that were read of what is appended to a file. -/
structure ReadOf (appended : Bytes) (done : List Bytes) : Prop where
  whole : ∀ line ∈ done, lineFeed ∉ line
  begins : ended done <+: appended

theorem ReadOf.mono (h : ReadOf appended done) (hle : appended <+: later) : ReadOf later done :=
  ⟨h.whole, h.begins.trans hle⟩

theorem readOf_of_cut (more : List Bytes) {rest : Bytes} (h : Cut appended (done ++ more) rest) :
    ReadOf appended done :=
  ⟨fun line hline => h.whole line (List.mem_append_left _ hline), h.begins⟩

/-- Where a reader stands that has read some lines of what is appended. -/
def standing (initial : Bytes) (done : List Bytes) : Nat := initial.length + (ended done).length

theorem standing_append (initial : Bytes) (done new : List Bytes) :
    standing initial (done ++ new) = standing initial done + (ended new).length := by
  rw [standing, standing, ended_append, List.length_append, Nat.add_assoc]

/-- The lines that are left are those after the standing. -/
theorem ReadOf.cut (h : ReadOf appended done) (initial : Bytes) :
    resumeAt (standing initial done) (initial ++ appended) = standing initial done ∧
    ∃ todo rest, Cut appended (done ++ todo) rest ∧
      Cut ((initial ++ appended).drop (standing initial done)) todo rest := by
  obtain ⟨after, rfl⟩ := h.begins
  obtain ⟨todo, rest, hcut⟩ := Cut.exists_cut after
  refine ⟨resumeAt_of_le ?_, todo, rest, hcut.append h.whole, ?_⟩
  · simp [standing]
  · rwa [standing, ← List.append_assoc, ← List.length_append, List.drop_left]

/-- An attempt on a file gives some of the next lines that were appended, and all of them if
it does not fail. -/
theorem read_appended {a : Attempt} (hsees : a.Sees (initial ++ appended))
    (h : ReadOf appended done) {offset : Nat} {e : Option IoError}
    (hread : a.read (standing initial done) = (lines, offset, e)) :
    ∃ new, lines = new.map bare ∧ offset = standing initial (done ++ new) ∧
      ReadOf appended (done ++ new) ∧
      (e = none → a = .whole (initial ++ appended) ∧ ∃ rest, Cut appended (done ++ new) rest) := by
  obtain ⟨hresume, todo, rest, hcut, hleft⟩ := h.cut initial
  cases a with
  | unopened e =>
    cases hread
    exact ⟨[], rfl, by simp, by simpa using h, nofun⟩
  | whole seen =>
    obtain rfl : seen = initial ++ appended := hsees
    rw [Attempt.read, hresume, completeLines_cut hleft] at hread
    cases hread
    exact ⟨todo, rfl, (standing_append ..).symm, readOf_of_cut [] (by rwa [List.append_nil]),
      fun _ => ⟨rfl, rest, hcut⟩⟩
  | broken seen count e =>
    obtain rfl : seen = initial ++ appended := hsees
    rw [Attempt.read, hresume, completeLinesUpTo_cut hleft] at hread
    cases hread
    rw [← List.take_append_drop count todo, ← List.append_assoc] at hcut
    exact ⟨todo.take count, rfl, (standing_append ..).symm, readOf_of_cut _ hcut, nofun⟩

theorem fails_of_read {a : Attempt} {start offset : Nat} {e : IoError}
    (h : a.read start = (lines, offset, some e)) : a.fails = true := by
  cases a with
  | whole => cases h
  | unopened | broken => rfl

/-- A file is read by some attempts while it grows. -/
inductive Grows (initial : Bytes) : Bytes → List Attempt → Bytes → Prop
  | finished (appended : Bytes) : Grows initial appended [] appended
  | grown {appended later : Bytes} {attempts : List Attempt} (chunk : Bytes)
      (h : Grows initial (appended ++ chunk) attempts later) : Grows initial appended attempts later
  | tried {appended later : Bytes} {a : Attempt} {attempts : List Attempt}
      (hsees : a.Sees (initial ++ appended)) (h : Grows initial appended attempts later) :
      Grows initial appended (a :: attempts) later

theorem Grows.begins (h : Grows initial appended attempts later) : appended <+: later := by
  induction h with
  | finished => exact List.prefix_rfl
  | grown chunk _ ih => exact (List.prefix_append _ _).trans ih
  | tried _ _ ih => exact ih

/-- A call that does not give up gives all the lines of what it has seen in the end. -/
theorem readFrom_appended {maxAttempts failed offset : Nat}
    (hgrows : Grows initial appended attempts later) (h : ReadOf appended done)
    (hread : readFrom maxAttempts failed (standing initial done) attempts =
      (lines, .reached offset)) :
    ∃ new seen rest, lines = new.map bare ∧ offset = standing initial (done ++ new) ∧
      attempts.find? (!·.fails) = some (.whole (initial ++ seen)) ∧
      Cut seen (done ++ new) rest ∧ seen <+: later := by
  induction hgrows generalizing done failed lines with
  | finished => cases hread
  | grown chunk _ ih => exact ih (h.mono (List.prefix_append _ _)) hread
  | @tried appended later a attempts hsees hgrows ih =>
    rw [readFrom] at hread
    generalize hr : a.read (standing initial done) = r at hread
    obtain ⟨first, middle, e⟩ := r
    obtain ⟨new, rfl, rfl, hnew, hall⟩ := read_appended hsees h hr
    cases e with
    | none =>
      cases hread
      obtain ⟨rfl, rest, hcut⟩ := hall rfl
      exact ⟨new, appended, rest, rfl, rfl, rfl, hcut, hgrows.begins⟩
    | some e =>
      simp only at hread
      split at hread
      · cases hread
      · generalize hm : readFrom maxAttempts (failed + 1) (standing initial (done ++ new)) attempts =
          more at hread
        obtain ⟨others, ending⟩ := more
        cases hread
        obtain ⟨new', seen, rest, rfl, rfl, hseen, hcut, hle⟩ := ih hnew hm
        refine ⟨new ++ new', seen, rest, by simp, by simp, ?_, by simpa using hcut, hle⟩
        rwa [List.find?_cons_of_neg (by simp [fails_of_read hr])]

end Attempts

section Unfinished

variable {initial seen : Bytes} {before done : List Bytes} {part rest : Bytes}

/-- Lines of which the first has a part before it. -/
def withPart (part : Bytes) : List Bytes → List Bytes
  | [] => []
  | line :: lines => (part ++ line) :: lines

@[simp] theorem withPart_nil (lines : List Bytes) : withPart [] lines = lines := by
  cases lines <;> rfl

/-- The lines of a file that is appended to: the first of them goes on where the file ended. -/
theorem cut_withPart (hinitial : Cut initial before part) (hseen : Cut seen done rest) :
    ∃ rest', Cut (initial ++ seen) (before ++ withPart part done) rest' := by
  cases done with
  | nil =>
    refine ⟨part ++ rest, ?_, ?_, ?_⟩
    · rw [hinitial.joined, hseen.joined]
      simp [withPart]
    · simpa [withPart] using hinitial.whole
    · simpa using ⟨hinitial.unended, hseen.unended⟩
  | cons line done =>
    refine ⟨rest, ?_, ?_, hseen.unended⟩
    · rw [hinitial.joined, hseen.joined]
      simp [withPart]
    · obtain ⟨hline, hdone⟩ := List.forall_mem_cons.mp hseen.whole
      have hfirst : lineFeed ∉ part ++ line := by simpa using ⟨hinitial.unended, hline⟩
      exact List.forall_mem_append.mpr ⟨hinitial.whole, List.forall_mem_cons.mpr ⟨hfirst, hdone⟩⟩

end Unfinished

section Following

/-- What has been appended to a followed file, where its follower is, and the lines that it has
ingested, each with the time it was read at. -/
structure Following where
  appended : Bytes
  follower : Follower
  ingested : List (String × Bytes)

namespace Following

/-- A file is followed from its initial content: it grows by any bytes, also while it is
polled, and the lines of a poll are ingested. -/
inductive Reached (initial : Option Bytes) : Following → Prop
  | started : Reached initial ⟨[], .start initial, []⟩
  | grown {σ : Following} (chunk : Bytes) (h : Reached initial σ) :
      Reached initial { σ with appended := σ.appended ++ chunk }
  | polled {σ : Following} {attempts : List Attempt} {later : Bytes} {f : Follower}
      {stamped : List (String × Bytes)} (h : Reached initial σ)
      (hgrows : Grows (initial.getD []) σ.appended attempts later)
      (hpoll : σ.follower.poll attempts = (f, stamped.map Prod.snd)) :
      Reached initial ⟨later, f, σ.ingested ++ stamped⟩

variable {initial : Option Bytes} {σ : Following} {f f' : Follower} {attempts : List Attempt}
  {lines : List Bytes}

/-- A poll brings nothing and stays where it is, or it reads to the end. -/
theorem poll_cases (h : f.poll attempts = (f', lines)) :
    (lines = [] ∧ f'.offset = f.offset) ∨
      f'.ended = false ∧ readNew maxAttempts f.offset attempts = (lines, .reached f'.offset) := by
  unfold Follower.poll at h
  split at h
  · cases h
    exact .inl ⟨rfl, rfl⟩
  next hended =>
    split at h
    next hread =>
      cases h
      exact .inr ⟨Bool.eq_false_iff.mpr hended, hread⟩
    · cases h
      exact .inl ⟨rfl, rfl⟩
    · cases h
      exact .inl ⟨rfl, rfl⟩

/-- Some lines of what was appended are ingested, and the follower stands after them. -/
structure Kept (initial : Option Bytes) (σ : Following) (done : List Bytes) : Prop where
  ingested : σ.ingested.map Prod.snd = done.map bare
  offset : σ.follower.offset = standing (initial.getD []) done
  readOf : ReadOf σ.appended done

theorem kept_started (initial : Option Bytes) : Kept initial ⟨[], .start initial, []⟩ [] where
  ingested := rfl
  offset := by cases initial <;> rfl
  readOf := ⟨nofun, List.nil_prefix⟩

theorem Kept.grown {done : List Bytes} (h : σ.Kept initial done) (chunk : Bytes) :
    Kept initial { σ with appended := σ.appended ++ chunk } done :=
  ⟨h.ingested, h.offset, h.readOf.mono (List.prefix_append _ _)⟩

theorem Kept.polled {done : List Bytes} {later : Bytes} {stamped : List (String × Bytes)}
    (h : σ.Kept initial done) (hgrows : Grows (initial.getD []) σ.appended attempts later)
    (hpoll : σ.follower.poll attempts = (f, stamped.map Prod.snd)) :
    ∃ new, Kept initial ⟨later, f, σ.ingested ++ stamped⟩ (done ++ new) := by
  obtain ⟨hingested, hoffset, hread⟩ := h
  rcases poll_cases hpoll with ⟨hnone, hsame⟩ | ⟨-, hreached⟩
  · refine ⟨[], ?_, ?_, ?_⟩
    · rw [List.map_append, hnone, hingested]
      simp
    · rw [List.append_nil, ← hoffset]
      exact hsame
    · rw [List.append_nil]
      exact hread.mono hgrows.begins
  · rw [readNew, hoffset] at hreached
    obtain ⟨new, seen, rest, hnew, hend, -, hcut, hle⟩ := readFrom_appended hgrows hread hreached
    refine ⟨new, ?_, hend, ?_⟩
    · rw [List.map_append, hnew, hingested, List.map_append]
    · exact (readOf_of_cut [] (by rwa [List.append_nil])).mono hle

theorem exists_kept (h : σ.Reached initial) : ∃ done, σ.Kept initial done := by
  induction h with
  | started => exact ⟨[], kept_started initial⟩
  | grown chunk _ ih =>
    obtain ⟨done, hkept⟩ := ih
    exact ⟨done, hkept.grown chunk⟩
  | polled _ hgrows hpoll ih =>
    obtain ⟨done, hkept⟩ := ih
    obtain ⟨new, hnew⟩ := hkept.polled hgrows hpoll
    exact ⟨done ++ new, hnew⟩

/-- A poll of which fewer attempts fail than it makes reads what it sees in the end. -/
theorem poll_reads {faults : List Attempt} (hrun : f.ended = false)
    (hfails : ∀ a ∈ faults, a.fails = true) (hfew : faults.length < maxAttempts) (content : Bytes) :
    ∃ f' lines, f.poll (faults ++ [.whole content]) = (f', lines) ∧ f'.ended = false ∧
      readNew maxAttempts f.offset (faults ++ [.whole content]) = (lines, .reached f'.offset) := by
  have hfew' : 0 + faults.length < max 1 maxAttempts := by
    rw [Nat.zero_add]
    exact Nat.lt_of_lt_of_le hfew (Nat.le_max_right ..)
  obtain ⟨lines, offset, hread⟩ := readFrom_succeeds hfails hfew' content f.offset
  refine ⟨{ f with offset := offset }, lines, ?_, hrun, hread⟩
  unfold Follower.poll
  rw [if_neg (by simp [hrun]), readNew, hread]

theorem ingestLines_eq_run (source hostname : String) (b : Broadcaster)
    (lines : List (String × Bytes)) : ingestLines source hostname b lines =
      b.run (lines.map fun l => .ingest source (wrapLine hostname l.1 l.2)) := by
  rw [Broadcaster.run, List.foldl_map]
  rfl

/-- A follower ingests the lines of what is appended to its file, in order and each once: the
lines of the file after the initial ones, of which the first lacks the part that was there
when the follower started. A poll that sees a line feed, and of which fewer attempts fail than
it makes, brings all lines up to it that were not ingested yet. -/
theorem followed_lines (h : σ.Reached initial) {before : List Bytes} {part : Bytes}
    (hinitial : Cut (initial.getD []) before part) :
    (∃ done, σ.ingested.map Prod.snd = done.map bare ∧
      (∀ line ∈ before ++ withPart part done, lineFeed ∉ line) ∧
      ended (before ++ withPart part done) <+: initial.getD [] ++ σ.appended) ∧
    (∀ source hostname b, ingestLines source hostname b σ.ingested =
      b.run (σ.ingested.map fun l => .ingest source (wrapLine hostname l.1 l.2))) ∧
    ∀ faults seen later, σ.follower.ended = false → (∀ a ∈ faults, a.fails = true) →
      faults.length < maxAttempts →
      Grows (initial.getD []) σ.appended (faults ++ [.whole (initial.getD [] ++ seen)]) later →
      ∃ f lines done rest,
        σ.follower.poll (faults ++ [.whole (initial.getD [] ++ seen)]) = (f, lines) ∧
        f.ended = false ∧ σ.ingested.map Prod.snd ++ lines = done.map bare ∧
        Cut (initial.getD [] ++ seen) (before ++ withPart part done) rest := by
  obtain ⟨done, hkept⟩ := exists_kept h
  refine ⟨⟨done, hkept.ingested, ?_⟩, fun source hostname b => ingestLines_eq_run .., ?_⟩
  · have hdone : Cut (ended done) done [] := ⟨(List.append_nil _).symm, hkept.readOf.whole, nofun⟩
    obtain ⟨rest, hcut⟩ := cut_withPart hinitial hdone
    have hbegins : ended (before ++ withPart part done) <+: initial.getD [] ++ ended done := by
      rw [hcut.joined]
      exact List.prefix_append ..
    exact ⟨hcut.whole, hbegins.trans (List.prefix_append_right_inj _ |>.mpr hkept.readOf.begins)⟩
  · intro faults seen later hrun hfails hfew hgrows
    -- the only attempt that does not fail is the last one, so this is what the poll has seen
    obtain ⟨f, lines, hpoll, hended, hread⟩ := poll_reads hrun hfails hfew (initial.getD [] ++ seen)
    rw [readNew, hkept.offset] at hread
    obtain ⟨new, seen', rest, rfl, -, hfind, hcut, -⟩ := readFrom_appended hgrows hkept.readOf hread
    have hnone : faults.find? (!·.fails) = none :=
      List.find?_eq_none.mpr fun a ha => by simp [hfails a ha]
    rw [List.find?_append, hnone, Option.none_or] at hfind
    obtain rfl : seen = seen' := List.append_cancel_left (Attempt.whole.inj (Option.some.inj hfind))
    obtain ⟨rest', hall⟩ := cut_withPart hinitial hcut
    exact ⟨f, _, done ++ new, rest', hpoll, hended, by rw [hkept.ingested, List.map_append], hall⟩

/-- A file that ended inside of a line when its follower started, and was polled when this line
and another one were complete. -/
def midLine : Following :=
  ⟨[99, 10, 100, 10], ⟨6, false⟩, [("12:00", [99]), ("12:00", [100])]⟩

theorem reached_midLine : midLine.Reached (some [97, 98]) := by
  have hgrows : Grows [97, 98] [] [.whole [97, 98, 99, 10, 100, 10]] midLine.appended :=
    .grown [99, 10, 100, 10] (.tried rfl (.finished _))
  have hpoll : (Follower.start (some [97, 98])).poll [.whole [97, 98, 99, 10, 100, 10]] =
      (midLine.follower, midLine.ingested.map Prod.snd) := by decide
  exact .polled .started hgrows hpoll

theorem followed_lines_midLine :
    (∃ done, midLine.ingested.map Prod.snd = done.map bare ∧
      ended (withPart [97, 98] done) <+: [97, 98, 99, 10, 100, 10]) ∧
    ∃ f lines done rest,
      midLine.follower.poll [.unopened .notFound, .whole [97, 98, 99, 10, 100, 10, 101, 10]] =
        (f, lines) ∧
      f.ended = false ∧ midLine.ingested.map Prod.snd ++ lines = done.map bare ∧
      Cut [97, 98, 99, 10, 100, 10, 101, 10] (withPart [97, 98] done) rest := by
  have hinitial : Cut [97, 98] [] [97, 98] := ⟨rfl, nofun, by decide⟩
  obtain ⟨⟨done, hingested, -, hbegins⟩, -, hpolls⟩ := followed_lines reached_midLine hinitial
  have hgrows : Grows [97, 98] midLine.appended
      [.unopened .notFound, .whole [97, 98, 99, 10, 100, 10, 101, 10]]
      [99, 10, 100, 10, 101, 10] :=
    .tried trivial (.grown [101, 10] (.tried rfl (.finished _)))
  exact ⟨⟨done, hingested, hbegins⟩, hpolls [.unopened .notFound] [99, 10, 100, 10, 101, 10] _ rfl
    (by simp [Attempt.fails]) (by decide) hgrows⟩

/-- The end of a line that had begun before is ingested like a line. -/
theorem midLine_cut_off :
    midLine.Reached (some [97, 98]) ∧
    Cut ([97, 98] ++ midLine.appended) [[97, 98, 99], [100]] [] ∧
    ∃ line ∈ midLine.ingested.map Prod.snd, line ∉ [[97, 98, 99], [100]].map bare :=
  ⟨reached_midLine, ⟨rfl, by decide, nofun⟩, [99], by decide, by decide⟩

end Following

end Following

end LogQuery.Tail
