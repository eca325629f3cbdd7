import Mathlib.Data.Set.List
import LogQuery.Proofs.Engine.Outcome

/-!
# No scan gets stuck

Whatever has happened to a scan, its tasks can be brought to their ends: a task
that waits gets a permit once nobody is at work, and a task that sends gets room
once the receiver has drained the channel. Each step of a task that is not held
up brings it nearer to its end.
-/

namespace LogQuery.Engine

open LogQuery.Text LogQuery.Store LogQuery.Log

variable {α : Type}

/-- How many steps a task on a file may still need. -/
def Task.left (fs : FileSystem) (path : FilePath) : Task α → Nat
  | waiting => 2 * (linesIn fs path).length + 3
  | opening => 2 * (linesIn fs path).length + 2
  | reading reader _ => 2 * reader.toList.length + 1
  | sending reader _ _ => 2 * reader.toList.length + 2
  | finished _ => 0

theorem Task.left_eq_zero {fs : FileSystem} {path : FilePath} {t : Task α}
    (h : t.left fs path = 0) : ∃ r, t = .finished r := by
  cases t with
  | finished r => exact ⟨r, rfl⟩
  | _ => simp [left] at h

theorem left_waiting_le_stepsFor (fs : FileSystem) (path : FilePath) :
    (Task.waiting : Task α).left fs path ≤ stepsFor fs path := by
  cases h : fs.openFile path <;> simp [Task.left, linesIn, stepsFor, h]

variable {fs : FileSystem} {visitor : Visitor α} {files : List FilePath} {s s' : Scan α}

/-- All permits that are not free are held by the tasks at work. -/
structure Balanced (files : List FilePath) (permits : Nat) (s : Scan α) : Prop where
  length : s.tasks.length = files.length
  permits : s.permits + s.tasks.countP Task.isAtWork = permits
  capacity : 0 < s.channel.capacity

/-- Whether a sender is not held up. -/
def Drained (c : Channel Item) : Prop := c.closed = true ∨ c.queue = []

theorem Drained.send_ne_full {c : Channel Item} (h : Drained c) (hc : 0 < c.capacity) (item : Item) :
    c.send item ≠ .full := by
  intro hf
  obtain ⟨hopen, hfull⟩ := Channel.send_full hf
  rw [h.resolve_left (by simp [hopen]), List.length_nil] at hfull
  omega

/-- One item sent over a drained channel is received at once. -/
theorem Drained.receive {c d : Channel Item} (h : Drained c) (hclosed : d.closed = c.closed)
    (hlen : d.queue.length ≤ c.queue.length + 1) : Drained d.receive := by
  cases hc : d.closed with
  | true => exact .inl ((Channel.receive_closed _).trans hc)
  | false =>
    rw [h.resolve_left (by rw [← hclosed, hc]; simp), List.length_nil] at hlen
    right
    rw [Channel.receive_queue hc, ← List.length_eq_zero_iff, List.length_tail]
    omega

theorem countP_set_add {β : Type} {ts : List β} {i : Nat} {t : β} (p : β → Bool)
    (ht : ts[i]? = some t) (t' : β) :
    (ts.set i t').countP p + (if p t then 1 else 0) = ts.countP p + (if p t' then 1 else 0) := by
  obtain ⟨hi, rfl⟩ := List.getElem?_eq_some_iff.mp ht
  have hpos : p ts[i] = true → 0 < ts.countP p := fun hp =>
    List.countP_pos_iff.mpr ⟨_, List.getElem_mem hi, hp⟩
  rw [List.countP_set hi]
  cases hp : p ts[i] with
  | false => simp
  | true =>
    have := hpos hp
    simp only [if_true]
    omega

/-- Why a step changes nothing. -/
def HeldUp (s : Scan α) (t : Task α) : Prop :=
  (∃ r, t = .finished r) ∨ (t = .waiting ∧ s.stopped = false ∧ s.permits = 0) ∨
    ∃ item, s.channel.send item = .full

/-- A step that changes something brings its task nearer to its end. A permit is
taken when a task goes to work and given back when it ends. -/
theorem Moves.forward {path : FilePath} {i : Nat} {t : Task α}
    (hm : Moves fs visitor path s i t s') :
    (s' = s ∧ HeldUp s t) ∨
    ∃ t', s'.tasks = s.tasks.set i t' ∧ t' ≠ .waiting ∧ t'.left fs path < t.left fs path ∧
      s'.permits + (if t'.isAtWork then 1 else 0) = s.permits + if t.isAtWork then 1 else 0 := by
  cases hm with
  | settled => exact .inl ⟨rfl, .inl ⟨_, rfl⟩⟩
  | starved hs hp => exact .inl ⟨rfl, .inr (.inl ⟨rfl, hs, hp⟩)⟩
  | blocked hc => exact .inl ⟨rfl, .inr (.inr ⟨_, hc⟩)⟩
  | turnedAway hs => exact .inr ⟨_, rfl, by simp, by simp [Task.left], rfl⟩
  | granted hs hp =>
    refine .inr ⟨_, rfl, by simp, by simp [Task.left], ?_⟩
    simp only [Task.isAtWork, Bool.false_eq_true, if_false, if_true]
    omega
  | opened hr =>
    refine .inr ⟨_, rfl, by simp, ?_, rfl⟩
    rw [Task.left, Task.left, linesIn_of_openFile hr]
    exact Nat.lt_succ_self _
  | unopened hr => exact .inr ⟨_, rfl, by simp, by simp [Task.left], rfl⟩
  | failed hn => exact .inr ⟨_, rfl, by simp, by simp [Task.left], rfl⟩
  | exhausted hn => exact .inr ⟨_, rfl, by simp, by simp [Task.left], rfl⟩
  | interrupted hn hs => exact .inr ⟨_, rfl, by simp, by simp [Task.left], rfl⟩
  | visited hn hs hv =>
    refine .inr ⟨_, rfl, by simp, ?_, rfl⟩
    rw [Task.left, Task.left, LineReader.toList_of_next_some hn, List.length_cons]
    omega
  | matched hn hs hv =>
    refine .inr ⟨_, rfl, by simp, ?_, rfl⟩
    rw [Task.left, Task.left, LineReader.toList_of_next_some hn, List.length_cons]
    omega
  | sent hc => exact .inr ⟨_, rfl, by simp, by simp [Task.left], rfl⟩
  | undelivered hc => exact .inr ⟨_, rfl, by simp, by simp [Task.left], rfl⟩

/-- What is in the channel after a step. -/
theorem Moves.channel {path : FilePath} {i : Nat} {t : Task α}
    (hm : Moves fs visitor path s i t s') :
    s'.channel.closed = s.channel.closed ∧ s'.channel.capacity = s.channel.capacity ∧
      s'.channel.queue.length ≤ s.channel.queue.length + 1 := by
  cases hm with
  | sent hc =>
    obtain ⟨ho, hd, hcap, -, hlen⟩ := Channel.send_accepted hc
    exact ⟨hd.trans ho.symm, hcap, Nat.le_of_eq hlen⟩
  | _ => exact ⟨rfl, rfl, Nat.le_succ _⟩

theorem set_getElem?_self {ts : List (Task α)} {i : Nat} {t : Task α} (h : ts[i]? = some t) :
    ts.set i t = ts := by
  obtain ⟨hi, rfl⟩ := List.getElem?_eq_some_iff.mp h
  exact List.set_getElem_self hi

variable {n i : Nat} {path : FilePath} {t : Task α}

theorem balanced_start (permits buffer : Capacity) (cancelled : Bool) :
    Balanced files (max 1 permits.val) (.start files.length permits cancelled buffer : Scan α) where
  length := by simp [Scan.start]
  permits := by simp [Scan.start, List.countP_replicate, Task.isAtWork]
  capacity := by simp [Scan.start, Channel.ofCapacity]

theorem Balanced.advance (h : Balanced files n s) (i : Nat) :
    Balanced files n (s.advance fs visitor files i) := by
  cases ht : s.tasks[i]? with
  | none => rwa [advance_of_none ht]
  | some t =>
    have hi := (List.getElem?_eq_some_iff.mp ht).1
    have hm : Moves fs visitor _ s i t _ :=
      advance_moves (List.getElem?_eq_getElem (h.length ▸ hi : i < files.length)) ht
    refine ⟨length_advance h.length i, ?_, by rw [hm.channel.2.1]; exact h.capacity⟩
    rcases hm.forward with ⟨he, -⟩ | ⟨t', htasks, -, -, hperm⟩
    · rw [he]
      exact h.permits
    · have hcount := countP_set_add Task.isAtWork ht t'
      have hn := h.permits
      rw [htasks]
      omega

theorem Balanced.step (h : Balanced files n s) (e : ScanEvent) :
    Balanced files n (s.step fs visitor files e) := by
  cases e with
  | advance i => exact h.advance i
  | cancel => exact ⟨h.length, h.permits, h.capacity⟩
  | receive => exact ⟨h.length, h.permits, by simpa [Scan.step] using h.capacity⟩
  | close => exact ⟨h.length, h.permits, h.capacity⟩

theorem Balanced.run (h : Balanced files n s) (events : List ScanEvent) :
    Balanced files n (s.run fs visitor files events) :=
  List.foldlRecOn events _ h fun _ hb e _ => hb.step e

/-- A task that waits gets a permit once nobody is at work. -/
theorem Balanced.permits_of_idle (h : Balanced files n s) (hn : 0 < n)
    (hidle : ∀ t ∈ s.tasks, t.isAtWork = false) : s.permits ≠ 0 := by
  have hp := h.permits
  rw [List.countP_eq_zero.mpr fun t ht => by simp [hidle t ht]] at hp
  omega

/-- One step of a task, after which the receiver takes what has been sent. -/
theorem Balanced.turn (h : Balanced files n s) (hd : Drained s.channel)
    (hp : files[i]? = some path) (ht : s.tasks[i]? = some t)
    (hgo : t = .waiting → s.permits ≠ 0) :
    Drained (s.run fs visitor files [.advance i, .receive]).channel ∧
      ∃ t', (s.run fs visitor files [.advance i, .receive]).tasks = s.tasks.set i t' ∧
        t' ≠ .waiting ∧ t'.left fs path ≤ t.left fs path - 1 := by
  change Drained (s.advance fs visitor files i).channel.receive ∧
    ∃ t', (s.advance fs visitor files i).tasks = _ ∧ _
  have hm : Moves fs visitor path s i t _ := advance_moves hp ht
  generalize s.advance fs visitor files i = s' at hm ⊢
  obtain ⟨hclosed, -, hlen⟩ := hm.channel
  refine ⟨hd.receive hclosed hlen, ?_⟩
  rcases hm.forward with ⟨rfl, ⟨r, rfl⟩ | ⟨rfl, -, h0⟩ | ⟨item, hfull⟩⟩ | ⟨t', htasks, hw, hlt, -⟩
  · exact ⟨_, (set_getElem?_self ht).symm, by simp, by simp [Task.left]⟩
  · exact absurd h0 (hgo rfl)
  · exact absurd hfull (hd.send_ne_full h.capacity item)
  · exact ⟨t', htasks, hw, by omega⟩

/-- Enough steps bring a task to its end, and no other task moves meanwhile. -/
theorem Balanced.turns (m : Nat) (h : Balanced files n s) (hd : Drained s.channel)
    (hp : files[i]? = some path) (ht : s.tasks[i]? = some t)
    (hgo : t = .waiting → s.permits ≠ 0) (hm : t.left fs path ≤ m) :
    let s' := s.run fs visitor files (List.replicate m [ScanEvent.advance i, .receive]).flatten
    Drained s'.channel ∧ ∃ r, s'.tasks = s.tasks.set i (.finished r) := by
  induction m generalizing s t with
  | zero =>
    obtain ⟨r, rfl⟩ := Task.left_eq_zero (Nat.le_zero.mp hm)
    exact ⟨hd, r, (set_getElem?_self ht).symm⟩
  | succ m ih =>
    obtain ⟨hd', t', htasks, hw, hle⟩ :
        Drained (s.run fs visitor files [.advance i, .receive]).channel ∧ _ :=
      h.turn hd hp ht hgo
    have hi := (List.getElem?_eq_some_iff.mp ht).1
    obtain ⟨hd'', r, hr⟩ := ih (h.run [.advance i, .receive]) hd'
      (by rw [htasks, List.getElem?_set_self hi]) (fun he => absurd he hw) (by omega)
    rw [List.replicate_succ, List.flatten_cons, Scan.run, List.foldl_append]
    refine ⟨hd'', r, hr.trans ?_⟩
    rw [htasks, List.set_set]

/-- When tasks run one after the other, all come to their ends. -/
theorem Balanced.inTurn_from (rest : List FilePath) (k : Nat) (hrest : files.drop k = rest)
    (h : Balanced files n s) (hn : 0 < n) (hd : Drained s.channel)
    (hidle : ∀ t ∈ s.tasks, t.isAtWork = false)
    (hover : ∀ t ∈ s.tasks.take k, ∃ r, t = .finished r) :
    let s' := s.run fs visitor files ((rest.zipIdx k).flatMap fun (path, i) =>
      (List.replicate (stepsFor fs path) [ScanEvent.advance i, .receive]).flatten)
    Drained s'.channel ∧ ∀ t ∈ s'.tasks, ∃ r, t = .finished r := by
  induction rest generalizing s k with
  | nil =>
    refine ⟨hd, fun t ht => hover t ?_⟩
    have hk : files.length ≤ k := by simpa using hrest
    rwa [List.take_of_length_le (by rw [h.length]; exact hk)]
  | cons path rest ih =>
    have hp : files[k]? = some path := by
      rw [← List.head?_drop, hrest]
      rfl
    have hk : k < s.tasks.length := h.length ▸ (List.getElem?_eq_some_iff.mp hp).1
    have ht := List.getElem?_eq_getElem hk
    have hleft : s.tasks[k].left fs path ≤ stepsFor fs path := by
      have hmost : (Task.waiting : Task α).left fs path ≤ stepsFor fs path :=
        left_waiting_le_stepsFor fs path
      have hw := hidle _ (List.mem_of_getElem? ht)
      generalize s.tasks[k] = t at hw
      cases t with
      | waiting => exact hmost
      | finished r => exact Nat.zero_le _
      | _ => cases hw
    obtain ⟨hd', r, hr⟩ := h.turns _ hd hp ht (fun _ => h.permits_of_idle hn hidle) hleft
    rw [List.zipIdx_cons, List.flatMap_cons, Scan.run, List.foldl_append]
    refine ih (k + 1) (by rw [← List.drop_drop, hrest]; rfl) (h.run _) hd' ?_ ?_
    · intro t ht
      replace ht : t ∈ s.tasks.set k (.finished r) := by rwa [← hr]
      rcases List.mem_or_eq_of_mem_set ht with ht | rfl
      · exact hidle t ht
      · rfl
    · intro t ht
      replace ht : t ∈ (s.tasks.set k (.finished r)).take (k + 1) := by rwa [← hr]
      rw [List.take_add_one, List.take_set_of_le (Nat.le_refl k), List.getElem?_set_self hk] at ht
      rcases List.mem_append.mp ht with ht | ht
      · exact hover t ht
      · exact ⟨r, List.mem_singleton.mp ht⟩

theorem results?_of_forall (h : ∀ t ∈ s.tasks, ∃ r, t = .finished r) :
    ∃ rs, s.results? = some rs := by
  have hmem : s.tasks ∈ Set.range (List.map Task.finished) := by
    rw [Set.range_list_map]
    intro t ht
    obtain ⟨r, rfl⟩ := h t ht
    exact ⟨r, rfl⟩
  obtain ⟨rs, hrs⟩ := hmem
  exact ⟨rs, results?_eq_some.mpr hrs.symm⟩

/-- When tasks run one after the other, all come to their ends. -/
theorem inTurn_ends (permits buffer : Capacity) (cancelled : Bool) :
    let s' := (Scan.start files.length permits cancelled buffer).run fs visitor files
      (inTurn fs files)
    Drained s'.channel ∧ ∃ rs, s'.results? = some rs := by
  have h : Balanced files _ (.start files.length permits cancelled buffer : Scan α) :=
    balanced_start permits buffer cancelled
  have hidle : ∀ t ∈ (.start files.length permits cancelled buffer : Scan α).tasks,
      t.isAtWork = false := by
    intro t ht
    rw [List.eq_of_mem_replicate ht]
    rfl
  have hall : Drained _ ∧ ∀ t ∈ (Scan.run fs visitor files _ (inTurn fs files)).tasks,
      ∃ r, t = .finished r :=
    h.inTurn_from files 0 rfl (by omega) (.inr rfl) hidle (by simp)
  exact ⟨hall.1, results?_of_forall hall.2⟩

/-- The receiver can always drain the channel. -/
theorem drained_receive (m : Nat) (h : s.channel.closed = true ∨ s.channel.queue.length ≤ m) :
    Drained (s.run fs visitor files (List.replicate m .receive)).channel := by
  induction m generalizing s with
  | zero => exact h.imp_right fun h0 => List.length_eq_zero_iff.mp (Nat.le_zero.mp h0)
  | succ m ih =>
    have h' : s.channel.receive.closed = true ∨ s.channel.receive.queue.length ≤ m := by
      cases hc : s.channel.closed with
      | true => exact .inl ((Channel.receive_closed _).trans hc)
      | false =>
        right
        have hlen := h.resolve_left (by simp [hc])
        rw [Channel.receive_queue hc, List.length_tail]
        omega
    have hrest := ih (s := s.step fs visitor files .receive) h'
    exact hrest

/-- Events that leave the query running and its stream open. -/
def Onward (events : List ScanEvent) : Prop := ∀ e ∈ events, e = .receive ∨ ∃ i, e = .advance i

/-- Some task can go on as long as one has no result. -/
theorem Balanced.next (h : Balanced files n s) (hn : 0 < n)
    (hleft : 0 < s.tasks.countP (·.result?.isNone)) :
    ∃ (i : Nat) (t : Task α), s.tasks[i]? = some t ∧ t.result? = none ∧
      (t = .waiting → s.permits ≠ 0) := by
  by_cases hidle : ∀ t ∈ s.tasks, t.isAtWork = false
  · obtain ⟨t, ht, hnone⟩ := List.countP_pos_iff.mp hleft
    obtain ⟨i, hi⟩ := List.mem_iff_getElem?.mp ht
    exact ⟨i, t, hi, Option.isNone_iff_eq_none.mp hnone, fun _ => h.permits_of_idle hn hidle⟩
  · obtain ⟨t, ht, hw⟩ : ∃ t ∈ s.tasks, t.isAtWork = true := by simpa using hidle
    obtain ⟨i, hi⟩ := List.mem_iff_getElem?.mp ht
    refine ⟨i, t, hi, ?_, ?_⟩
    · cases t with
      | finished r => cases hw
      | _ => rfl
    · rintro rfl
      cases hw

theorem Balanced.ends_drained (m : Nat) (h : Balanced files n s) (hn : 0 < n)
    (hd : Drained s.channel) (hm : s.tasks.countP (·.result?.isNone) = m) :
    ∃ events, Onward events ∧ Drained (s.run fs visitor files events).channel ∧
      ∃ rs, (s.run fs visitor files events).results? = some rs := by
  induction m generalizing s with
  | zero =>
    refine ⟨[], by simp [Onward], hd, results?_of_forall fun t ht => ?_⟩
    have hr := List.countP_eq_zero.mp hm t ht
    cases t with
    | finished r => exact ⟨r, rfl⟩
    | _ => simp [Task.result?] at hr
  | succ m ih =>
    obtain ⟨i, t, ht, hnone, hgo⟩ := h.next hn (by omega)
    have hi : i < files.length := h.length ▸ (List.getElem?_eq_some_iff.mp ht).1
    have hp := List.getElem?_eq_getElem hi
    obtain ⟨hd', r, hr⟩ := h.turns _ hd hp ht hgo (Nat.le_refl _)
    have hcount : (s.tasks.set i (.finished r)).countP (·.result?.isNone) = m := by
      have hset := countP_set_add (·.result?.isNone) ht (.finished r)
      rw [hnone, hm] at hset
      simpa [Task.result?] using hset
    obtain ⟨events, hev, hover⟩ := ih (h.run _) hd' (by rwa [hr])
    refine ⟨_ ++ events, ?_, by rwa [Scan.run, List.foldl_append]⟩
    intro e he
    rcases List.mem_append.mp he with he | he
    · obtain ⟨es, hes, he⟩ := List.mem_flatten.mp he
      rw [List.eq_of_mem_replicate hes] at he
      rcases List.mem_pair.mp he with rfl | rfl
      · exact .inr ⟨i, rfl⟩
      · exact .inl rfl
    · exact hev e he

/-- From wherever a scan has come, steps of its tasks bring it to its end, while
the receiver drains the channel. -/
theorem Balanced.ends (h : Balanced files n s) (hn : 0 < n) :
    ∃ events, Onward events ∧ Drained (s.run fs visitor files events).channel ∧
      ∃ rs, (s.run fs visitor files events).results? = some rs := by
  have hd : Drained (s.run fs visitor files _).channel := drained_receive _ (.inr (Nat.le_refl _))
  obtain ⟨events, hev, hover⟩ := (h.run _).ends_drained _ hn hd rfl
  refine ⟨List.replicate s.channel.queue.length .receive ++ events, ?_, ?_⟩
  · intro e he
    rcases List.mem_append.mp he with he | he
    · exact .inl (List.eq_of_mem_replicate he)
    · exact hev e he
  · rwa [Scan.run, List.foldl_append]

end LogQuery.Engine
