import LogQuery.Proofs.Log.Resume

/-!
# Attempts that fail

An attempt can fail after it has delivered some lines, and the next one opens the file
again. Nothing is lost or delivered twice by this, because the offset has moved with the
lines: after any failures reading goes on after all lines delivered so far. So the lines
of all attempts of a call together are the next lines of the file, all of them when the
call succeeds, and the first of them when it gives up.
-/

namespace LogQuery.Log

open LogQuery.Text LogQuery.Store

variable {content rest : Bytes} {done todo : List Bytes} {offset : Nat}

/-- An offset within a content at which a line starts. -/
structure LineStart (content : Bytes) (offset : Nat) : Prop where
  within : offset ≤ content.length
  after_feed : offset = 0 ∨ content[offset - 1]? = some lineFeed

/-- Before the start of a line there are whole lines. -/
theorem LineStart.goesOnAfter (h : LineStart content offset) :
    ∃ done, GoesOnAfter content done offset ∧ offset = (ended done).length := by
  obtain ⟨done, rest, hcut⟩ := Cut.exists_cut (content.take offset)
  have hlast : content.take offset = [] ∨ (content.take offset).getLast? = some lineFeed := by
    by_cases hzero : offset = 0
    · exact .inl (by rw [hzero, List.take_zero])
    · rw [List.getLast?_take, if_neg hzero, h.after_feed.resolve_left hzero, Option.some_or]
      exact .inr rfl
  have hbefore : content.take offset = ended done := by
    rw [hcut.joined, hcut.rest_eq_nil hlast, List.append_nil]
  have hoffset : offset = (ended done).length := by
    rw [← hbefore, List.length_take, Nat.min_eq_left h.within]
  refine ⟨done, ?_, hoffset⟩
  rw [hoffset]
  exact goesOnAfter_ended hcut.whole (hbefore ▸ List.take_prefix ..)

/-- Lines delivered so far are the first of those after the offset. -/
theorem Cut.prefix_of_goesOnAfter {new : List Bytes} {offset' : Nat}
    (h : Cut content (done ++ todo) rest) (hnew : GoesOnAfter content (done ++ new) offset') :
    new <+: todo :=
  (List.prefix_append_right_inj done).mp (h.prefix_of_begins hnew.whole hnew.begins)

/-- A failed attempt leaves the call where its lines end, with one attempt less. -/
theorem readFrom_fault (maxAttempts failed : Nat) {a : Attempt} (hfails : a.fails = true)
    (hsees : a.Sees content) (h : GoesOnAfter content done offset) :
    ∃ new offset' e, GoesOnAfter content (done ++ new) offset' ∧
      ∀ later, readFrom maxAttempts failed offset (a :: later) =
        if failed + 1 ≥ maxAttempts then (new.map bare, .exhausted (failed + 1) e)
        else (new.map bare ++ (readFrom maxAttempts (failed + 1) offset' later).1,
          (readFrom maxAttempts (failed + 1) offset' later).2) := by
  obtain ⟨lines, offset', e, hread⟩ := Attempt.read_of_fails hfails offset
  obtain ⟨new, rfl, hnew, -⟩ := a.read_goesOn hsees h hread
  refine ⟨new, offset', e, hnew, fun later => ?_⟩
  rw [readFrom, hread]

/-- Fewer failures than attempts leave the call where all their lines end. -/
theorem readFrom_faults (maxAttempts failed : Nat) {faults : List Attempt}
    (hfails : ∀ a ∈ faults, a.fails = true) (hsees : ∀ a ∈ faults, a.Sees content)
    (hfew : failed + faults.length < max 1 maxAttempts) (h : GoesOnAfter content done offset) :
    ∃ new offset', GoesOnAfter content (done ++ new) offset' ∧
      ∀ later, readFrom maxAttempts failed offset (faults ++ later) =
        (new.map bare ++ (readFrom maxAttempts (failed + faults.length) offset' later).1,
          (readFrom maxAttempts (failed + faults.length) offset' later).2) := by
  induction faults generalizing failed offset done with
  | nil => exact ⟨[], offset, by simpa using h, fun later => rfl⟩
  | cons a faults ih =>
    obtain ⟨ha, hfaults⟩ := List.forall_mem_cons.mp hfails
    obtain ⟨hseen, hsees⟩ := List.forall_mem_cons.mp hsees
    rw [List.length_cons] at hfew
    obtain ⟨new, middle, e, hmiddle, hstep⟩ := readFrom_fault maxAttempts failed ha hseen h
    obtain ⟨more, offset', hmore, hrun⟩ := ih (failed + 1) hfaults hsees (by omega) hmiddle
    refine ⟨new ++ more, offset', by simpa using hmore, fun later => ?_⟩
    rw [List.cons_append, hstep, if_neg (by omega), hrun, List.map_append, List.append_assoc,
      List.length_cons, Nat.add_right_comm, Nat.add_assoc]

/-- The attempts that fail before the first one that does not. -/
def failures (attempts : List Attempt) : List Attempt := attempts.takeWhile Attempt.fails

theorem fails_of_mem_failures {attempts : List Attempt} {a : Attempt}
    (h : a ∈ failures attempts) : a.fails = true :=
  List.all_eq_true.mp List.all_takeWhile a h

/-- After the failures comes an attempt that reads the content to its end. -/
theorem failures_append {attempts : List Attempt} (hsees : ∀ a ∈ attempts, a.Sees content)
    (hmore : (failures attempts).length < attempts.length) :
    ∃ later, attempts = failures attempts ++ .whole content :: later := by
  have hsplit : failures attempts ++ attempts.dropWhile Attempt.fails = attempts :=
    List.takeWhile_append_dropWhile
  cases hleft : attempts.dropWhile Attempt.fails with
  | nil =>
    rw [hleft, List.append_nil] at hsplit
    rw [hsplit] at hmore
    exact absurd hmore (Nat.lt_irrefl _)
  | cons a later =>
    rw [hleft] at hsplit
    have hreads : a.fails = false := by
      have hhead := List.head?_dropWhile_not Attempt.fails attempts
      rw [hleft] at hhead
      exact hhead
    have hseen : a.Sees content := hsees a (hsplit ▸ List.mem_append_right _ List.mem_cons_self)
    cases a with
    | unopened | broken => cases hreads
    | whole seen =>
      obtain rfl : seen = content := hseen
      exact ⟨later, hsplit.symm⟩

theorem exists_failure {n : Nat} {attempts : List Attempt} (h : n < (failures attempts).length) :
    ∃ faults a later, attempts = faults ++ a :: later ∧ faults.length = n ∧
      (∀ b ∈ faults, b.fails = true) ∧ a.fails = true := by
  have hsplit : failures attempts ++ attempts.dropWhile Attempt.fails = attempts :=
    List.takeWhile_append_dropWhile
  refine ⟨(failures attempts).take n, (failures attempts)[n],
    (failures attempts).drop (n + 1) ++ attempts.dropWhile Attempt.fails, ?_, ?_, ?_, ?_⟩
  · rw [← List.cons_append, ← List.append_assoc, List.getElem_cons_drop, List.take_append_drop,
      hsplit]
  · exact List.length_take_of_le (Nat.le_of_lt h)
  · exact fun b hb => fails_of_mem_failures (List.mem_of_mem_take hb)
  · exact fails_of_mem_failures (List.getElem_mem h)

/-- A call that succeeds before its attempts are used up delivers all lines that were left,
and returns the offset after them. -/
theorem readNew_reached {maxAttempts : Nat} {attempts : List Attempt}
    (hcut : Cut content (done ++ todo) rest) (hdone : GoesOnAfter content done offset)
    (hsees : ∀ a ∈ attempts, a.Sees content) (hfew : (failures attempts).length < max maxAttempts 1)
    (hmore : (failures attempts).length < attempts.length) :
    ∃ offset', readNew maxAttempts offset attempts = (todo.map bare, .reached offset') ∧
      offset' + rest.length = content.length := by
  obtain ⟨later, hsplit⟩ := failures_append hsees hmore
  have hseen : ∀ a ∈ failures attempts, a.Sees content := fun a ha =>
    hsees a (hsplit ▸ List.mem_append_left _ ha)
  obtain ⟨new, middle, hmiddle, hrun⟩ := readFrom_faults maxAttempts 0
    (fun a => fails_of_mem_failures) hseen (by omega) hdone
  -- the attempt that succeeds delivers what the failed ones have left
  obtain ⟨last, offset', hread⟩ : ∃ last offset',
      (Attempt.whole content).read middle = (last, offset', none) := ⟨_, _, rfl⟩
  have hsame : (Attempt.whole content).Sees content := rfl
  obtain ⟨others, rfl, -, hall⟩ := Attempt.read_goesOn hsame hmiddle hread
  obtain ⟨rest', hcut', rfl⟩ := hall rfl
  rw [List.append_assoc] at hcut'
  obtain ⟨hlines, rfl⟩ := hcut.unique hcut'
  refine ⟨(ended (done ++ new ++ others)).length, ?_, ?_⟩
  · rw [readNew, hsplit, hrun, readFrom, hread, ← List.map_append,
      List.append_cancel_left hlines]
  · rw [List.append_assoc, ← List.length_append, ← hcut'.joined]

/-- A call whose attempts all fail gives up, and has delivered the first of the lines that
were left. -/
theorem readNew_exhausted {maxAttempts : Nat} {attempts : List Attempt}
    (hcut : Cut content (done ++ todo) rest) (hdone : GoesOnAfter content done offset)
    (hsees : ∀ a ∈ attempts, a.Sees content)
    (hmany : max maxAttempts 1 ≤ (failures attempts).length) :
    ∃ first e, first <+: todo ∧ readNew maxAttempts offset attempts =
      (first.map bare, .exhausted (max maxAttempts 1) e) := by
  have hlast : max maxAttempts 1 - 1 < (failures attempts).length := by omega
  obtain ⟨faults, a, later, hsplit, hcount, hfails, ha⟩ := exists_failure hlast
  rw [hsplit] at hsees
  obtain ⟨hseen, hsees⟩ := List.forall_mem_append.mp hsees
  obtain ⟨new, middle, hmiddle, hrun⟩ := readFrom_faults maxAttempts 0 hfails hseen (by omega) hdone
  -- the last attempt that may be made fails like those before it
  obtain ⟨last, offset', e, hend, hstep⟩ :=
    readFrom_fault maxAttempts (0 + faults.length) ha (hsees a List.mem_cons_self) hmiddle
  rw [List.append_assoc] at hend
  have hspent : 0 + faults.length + 1 = max maxAttempts 1 := by omega
  refine ⟨new ++ last, e, hcut.prefix_of_goesOnAfter hend, ?_⟩
  rw [readNew, hsplit, hrun, hstep, if_pos (hspent ▸ Nat.le_max_left ..), ← List.map_append,
    hspent]

/-- A call on a file that does not change delivers the lines after its offset, in order and
each once over all attempts together, and returns the offset after the last line feed, if
fewer attempts fail than it may make. Otherwise it gives up after as many attempts as it may
make, and has delivered the first of these lines, in order and each once. -/
theorem retried_reading (hstart : LineStart content offset) :
    ∃ done todo rest, Cut content (done ++ todo) rest ∧ offset = (ended done).length ∧
      ∀ maxAttempts attempts, (∀ a ∈ attempts, a.Sees content) →
        ((failures attempts).length < max maxAttempts 1 →
          (failures attempts).length < attempts.length →
          ∃ offset', readNew maxAttempts offset attempts = (todo.map bare, .reached offset') ∧
            offset' + rest.length = content.length) ∧
        (max maxAttempts 1 ≤ (failures attempts).length →
          ∃ first e, first <+: todo ∧ readNew maxAttempts offset attempts =
            (first.map bare, .exhausted (max maxAttempts 1) e)) := by
  obtain ⟨done, hdone, hoffset⟩ := hstart.goesOnAfter
  obtain ⟨todo, rest, hcut, -⟩ := hdone.cut
  refine ⟨done, todo, rest, hcut, hoffset, fun maxAttempts attempts hsees => ⟨?_, ?_⟩⟩
  · exact readNew_reached hcut hdone hsees
  · exact readNew_exhausted hcut hdone hsees

/-- A file that does not open, and then cannot be read on after one more line, is read to its
end by the third attempt. Without a third attempt it is given up after that line. -/
theorem brokenOff_retried :
    let content : Bytes := [97, 10, 98, 13, 10, 99, 10, 100]
    let attempts : List Attempt :=
      [.unopened .notFound, .broken content 1 .isADirectory, .whole content]
    LineStart content 2 ∧ (∀ a ∈ attempts, a.Sees content) ∧ (failures attempts).length = 2 ∧
      ∃ done todo rest, Cut content (done ++ todo) rest ∧ 2 = (ended done).length ∧
        (∃ offset', readNew 3 2 attempts = (todo.map bare, .reached offset') ∧
          offset' + rest.length = content.length) ∧
        ∃ first e, first <+: todo ∧
          readNew 2 2 attempts = (first.map bare, .exhausted (max 2 1) e) := by
  intro content attempts
  have hstart : LineStart content 2 := ⟨by decide, .inr rfl⟩
  have hsees : ∀ a ∈ attempts, a.Sees content := by simp [attempts, Attempt.Sees]
  obtain ⟨done, todo, rest, hcut, hoffset, hreads⟩ := retried_reading hstart
  exact ⟨hstart, hsees, rfl, done, todo, rest, hcut, hoffset,
    (hreads 3 attempts hsees).1 (by decide) (by decide), (hreads 2 attempts hsees).2 (by decide)⟩

end LogQuery.Log
