import LogQuery.Proofs.Engine.Scan

/-!
# How a scan ends

A scan ends when all its tasks have a result. It ends well only with what all
files hold. Unless somebody outside stops it, it fails exactly when a file cannot
be read, and then it says so.
-/

namespace LogQuery.Engine

open LogQuery.Text LogQuery.Store LogQuery.Log

variable {α : Type}

theorem results?_eq_some {s : Scan α} {rs : List (Except Failure α)} :
    s.results? = some rs ↔ s.tasks = rs.map Task.finished := by
  unfold Scan.results?
  generalize s.tasks = ts
  induction ts generalizing rs with
  | nil => cases rs <;> simp
  | cons t ts ih =>
    cases rs with
    | nil => cases t <;> simp [Task.result?, Option.bind_eq_some_iff]
    | cons r rs => cases t <;> simp [Task.result?, Option.bind_eq_some_iff, ih, and_comm]

theorem cause_eq_none {failures : List Failure} : cause failures = none ↔ failures = [] := by
  cases failures with
  | nil => simp [cause]
  | cons f fs => cases f <;> simp [cause]

theorem mem_of_cause {failures : List Failure} {f : Failure} (h : cause failures = some f) :
    f ∈ failures := by
  induction failures with
  | nil => cases h
  | cons g gs ih =>
    cases g with
    | read p e =>
      cases h
      exact List.mem_cons_self
    | cancelled =>
      rcases Option.or_eq_some_iff.mp h with hc | ⟨-, hc⟩
      · exact List.mem_cons_of_mem _ (ih hc)
      · cases hc
        exact List.mem_cons_self

/-- A cancellation is the cause only if nothing else went wrong. -/
theorem cause_eq_cancelled {failures : List Failure} (h : cause failures = some .cancelled) :
    ∀ f ∈ failures, f = .cancelled := by
  induction failures with
  | nil => cases h
  | cons g gs ih =>
    cases g with
    | read p e => cases h
    | cancelled =>
      refine List.forall_mem_cons.mpr ⟨rfl, ?_⟩
      rcases Option.or_eq_some_iff.mp h with hc | ⟨hc, -⟩
      · exact ih hc
      · rw [cause_eq_none.mp hc]
        simp

theorem mem_failures {rs : List (Except Failure α)} {f : Failure} :
    f ∈ rs.filterMap failure? ↔ .error f ∈ rs := by
  rw [List.mem_filterMap]
  constructor
  · rintro ⟨r, hr, he⟩
    cases r with
    | ok a => cases he
    | error g =>
      cases he
      exact hr
  · exact fun h => ⟨_, h, rfl⟩

theorem failures_eq_nil {rs : List (Except Failure α)} (h : rs.filterMap failure? = []) :
    rs = (rs.filterMap Except.toOption).map .ok := by
  induction rs with
  | nil => rfl
  | cons r rs ih =>
    cases r with
    | ok a => simpa [failure?, Except.toOption] using ih (by simpa [failure?] using h)
    | error f => simp [failure?] at h

/-- A scan ends well exactly when every task does. -/
theorem collect_eq_ok {rs : List (Except Failure α)} {found : List α} :
    collect rs = .ok found ↔ rs = found.map .ok := by
  constructor
  · intro h
    unfold collect at h
    split at h
    · cases h
    · next hc =>
      cases h
      exact failures_eq_nil (cause_eq_none.mp hc)
  · rintro rfl
    have hf : (found.map fun a => (.ok a : Except Failure α)).filterMap failure? = [] := by
      simp [List.filterMap_map, Function.comp_def, failure?]
    have ht : (found.map fun a => (.ok a : Except Failure α)).filterMap Except.toOption = found := by
      simp [List.filterMap_map, Function.comp_def, Except.toOption]
    rw [collect, hf, ht]
    rfl

/-- The failure of a scan is one of its tasks', and a cancellation only if all are. -/
theorem collect_eq_error {rs : List (Except Failure α)} {f : Failure} (h : collect rs = .error f) :
    .error f ∈ rs ∧ (f = .cancelled → ∀ g, .error g ∈ rs → g = .cancelled) := by
  unfold collect at h
  split at h
  · next hc =>
    cases h
    refine ⟨mem_failures.mp (mem_of_cause hc), ?_⟩
    rintro rfl g hg
    exact cause_eq_cancelled hc g (mem_failures.mpr hg)
  · cases h

section Outcome

variable {fs : FileSystem} {visitor : Visitor α} {files : List FilePath} {s s' : Scan α}
  {sent : Nat → List String} {rs : List (Except Failure α)}

theorem TaskAt.of_ok {path : FilePath} {a : α} {records : List String}
    (h : TaskAt fs visitor path (.finished (.ok a)) records) :
    Readable fs path ∧ a = visitor.found (linesIn fs path) ∧
      records = visitor.records (linesIn fs path) := by
  cases h with
  | settled hr => exact ⟨hr, rfl, rfl⟩

theorem Faithful.result (h : Faithful fs visitor files s sent) (hrs : s.results? = some rs) {i : Nat}
    {path : FilePath} {r : Except Failure α} (hp : files[i]? = some path) (hr : rs[i]? = some r) :
    TaskAt fs visitor path (.finished r) (sent i) := by
  apply h.task hp
  rw [results?_eq_some.mp hrs, List.getElem?_map, hr]
  rfl

theorem Faithful.result_of_mem (h : Faithful fs visitor files s sent) (hrs : s.results? = some rs)
    {r : Except Failure α} (hr : r ∈ rs) :
    ∃ i path, files[i]? = some path ∧ s.tasks[i]? = some (.finished r) ∧
      TaskAt fs visitor path (.finished r) (sent i) := by
  obtain ⟨i, hi⟩ := List.mem_iff_getElem?.mp hr
  have ht : s.tasks[i]? = some (.finished r) := by
    rw [results?_eq_some.mp hrs, List.getElem?_map, hi]
    rfl
  have hlt : i < files.length := by
    rw [← h.length]
    exact (List.getElem?_eq_some_iff.mp ht).1
  exact ⟨i, _, List.getElem?_eq_getElem hlt, ht, h.result hrs (List.getElem?_eq_getElem hlt) hi⟩

/-- A scan that ends well has seen every line of every file, and all the records
its tasks had to send are on the channel. -/
theorem Faithful.of_ok (h : Faithful fs visitor files s sent) (hrs : s.results? = some rs)
    {found : List α} (hc : collect rs = .ok found) :
    (∀ p ∈ files, Readable fs p) ∧ found = files.map (fun p => visitor.found (linesIn fs p)) ∧
      (List.range files.length).flatMap sent =
        files.flatMap fun p => visitor.records (linesIn fs p) := by
  have hrs' := collect_eq_ok.mp hc
  have hlen : found.length = files.length := by
    have hl := congrArg List.length (results?_eq_some.mp hrs)
    rw [h.length, hrs'] at hl
    simpa using hl.symm
  have hat : ∀ i (hi : i < files.length), ∃ a, found[i]? = some a ∧
      TaskAt fs visitor files[i] (.finished (.ok a)) (sent i) := by
    intro i hi
    refine ⟨found[i], List.getElem?_eq_getElem (by omega), ?_⟩
    apply h.result hrs (List.getElem?_eq_getElem hi)
    rw [hrs', List.getElem?_map, List.getElem?_eq_getElem (by omega)]
    rfl
  refine ⟨?_, ?_, ?_⟩
  · intro p hp
    obtain ⟨i, hi, rfl⟩ := List.mem_iff_getElem.mp hp
    obtain ⟨a, -, ha⟩ := hat i hi
    exact ha.of_ok.1
  · refine List.ext_getElem (by simpa using hlen) fun i hi hi' => ?_
    obtain ⟨a, hfound, ha⟩ := hat i (by omega)
    rw [List.getElem?_eq_getElem hi] at hfound
    rw [Option.some.inj hfound, List.getElem_map]
    exact ha.of_ok.2.1
  · refine flatMap_range_length fun i hi => ?_
    obtain ⟨a, -, ha⟩ := hat i hi
    exact ha.of_ok.2.2

/-- A step changes no other task, and none that has a result. -/
theorem Moves.tasks {path : FilePath} {i : Nat} {t : Task α} (hm : Moves fs visitor path s i t s') :
    s' = s ∨ (∀ r, t ≠ .finished r) ∧ ∃ t', s'.tasks = s.tasks.set i t' := by
  cases hm with
  | settled | starved | blocked => exact .inl rfl
  | _ => exact .inr ⟨by simp, _, rfl⟩

theorem advance_finished {i j : Nat} {r : Except Failure α} (hl : s.tasks.length = files.length)
    (h : s.tasks[j]? = some (.finished r)) :
    (s.advance fs visitor files i).tasks[j]? = some (.finished r) := by
  cases ht : s.tasks[i]? with
  | none => rwa [advance_of_none ht]
  | some t =>
    have hi : i < files.length := by
      rw [← hl]
      exact (List.getElem?_eq_some_iff.mp ht).1
    rcases (advance_moves (List.getElem?_eq_getElem hi) ht).tasks with he | ⟨hne, t', he⟩
    · rwa [he]
    · rw [he, List.getElem?_set_ne, h]
      rintro rfl
      exact hne r (Option.some.inj (ht.symm.trans h))

/-- A scan is stopped by a closed channel or by a file that cannot be read. -/
theorem Moves.stops {path : FilePath} {i : Nat} {t : Task α} (hm : Moves fs visitor path s i t s')
    (ht : i < s.tasks.length) (hs : s'.stopped = true) :
    s.stopped = true ∨ s.channel.closed = true ∨
      ∃ e, s'.tasks[i]? = some (.finished (.error (.read path e))) := by
  cases hm with
  | unopened | failed => exact .inr (.inr ⟨_, List.getElem?_set_self ht⟩)
  | undelivered hc => exact .inr (.inl (Channel.send_refused hc))
  | interrupted _ h => exact .inl h
  | _ => exact .inl (by simpa using hs)

theorem Moves.closed {path : FilePath} {i : Nat} {t : Task α}
    (hm : Moves fs visitor path s i t s') : s'.channel.closed = s.channel.closed := by
  cases hm with
  | sent hc =>
    obtain ⟨ho, hd, -⟩ := Channel.send_accepted hc
    exact hd.trans ho.symm
  | _ => rfl

/-- Nobody outside has stopped the scan: if it is stopped, a file cannot be read. -/
structure Undisturbed (s : Scan α) : Prop where
  opened : s.channel.closed = false
  cause : s.stopped = true → ∃ (i : Nat) (p : FilePath) (e : IoError),
    s.tasks[i]? = some (.finished (.error (.read p e)))

theorem undisturbed_start (files : Nat) (n buffer : Capacity) :
    Undisturbed (.start files n false buffer : Scan α) where
  opened := rfl
  cause h := by cases h

/-- Events that neither cancel the query nor close its stream. -/
def Quiet (events : List ScanEvent) : Prop := ∀ e ∈ events, e ≠ .cancel ∧ e ≠ .close

theorem Undisturbed.advance (h : Undisturbed s) (hl : s.tasks.length = files.length) (i : Nat) :
    Undisturbed (s.advance fs visitor files i) := by
  cases ht : s.tasks[i]? with
  | none => rwa [advance_of_none ht]
  | some t =>
    have hi := (List.getElem?_eq_some_iff.mp ht).1
    have hm : Moves fs visitor _ s i t _ :=
      advance_moves (List.getElem?_eq_getElem (hl ▸ hi : i < files.length)) ht
    refine ⟨hm.closed.trans h.opened, fun hs => ?_⟩
    rcases hm.stops hi hs with hstop | hclosed | ⟨e, he⟩
    · obtain ⟨j, p, e, hj⟩ := h.cause hstop
      exact ⟨j, p, e, advance_finished hl hj⟩
    · exact absurd (h.opened.symm.trans hclosed) Bool.false_ne_true
    · exact ⟨i, _, e, he⟩

theorem length_advance (hl : s.tasks.length = files.length) (i : Nat) :
    (s.advance fs visitor files i).tasks.length = files.length := by
  cases ht : s.tasks[i]? with
  | none => rwa [advance_of_none ht]
  | some t =>
    have hi := (List.getElem?_eq_some_iff.mp ht).1
    rcases (advance_moves (List.getElem?_eq_getElem (hl ▸ hi : i < files.length)) ht).tasks with
      he | ⟨-, t', he⟩
    · rwa [he]
    · rwa [he, List.length_set]

theorem Undisturbed.run (h : Undisturbed s) (hl : s.tasks.length = files.length)
    {events : List ScanEvent} (hq : Quiet events) :
    Undisturbed (s.run fs visitor files events) := by
  induction events generalizing s with
  | nil => exact h
  | cons e events ih =>
    obtain ⟨he, hrest⟩ := List.forall_mem_cons.mp hq
    cases e with
    | advance i => exact ih (h.advance hl i) (length_advance hl i) hrest
    | cancel => exact absurd rfl he.1
    | receive => exact ih ⟨(Channel.receive_closed _).trans h.opened, h.cause⟩ hl hrest
    | close => exact absurd rfl he.2

/-- Undisturbed, a scan fails only for a file that cannot be read, and names it. -/
theorem Undisturbed.failure (hu : Undisturbed s) (h : Faithful fs visitor files s sent)
    (hrs : s.results? = some rs) {f : Failure} (hc : collect rs = .error f) :
    ∃ p ∈ files, ∃ e, fs.read p = .error e ∧ f = .read p e := by
  obtain ⟨hf, hcancelled⟩ := collect_eq_error hc
  obtain ⟨i, path, hp, ht, hat⟩ := h.result_of_mem hrs hf
  generalize sent i = records at hat
  cases hat with
  | unreadable hr => exact ⟨path, List.mem_of_getElem? hp, _, hr, rfl⟩
  | cancelled =>
    obtain ⟨j, p, e, hj⟩ := hu.cause (h.failed ht)
    have hmem : .error (.read p e) ∈ rs := by
      rw [results?_eq_some.mp hrs, List.getElem?_map] at hj
      obtain ⟨r, hr, he⟩ := Option.map_eq_some_iff.mp hj
      cases he
      exact List.mem_of_getElem? hr
    cases hcancelled rfl _ hmem

end Outcome

end LogQuery.Engine
