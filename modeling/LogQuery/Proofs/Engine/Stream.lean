import LogQuery.Proofs.Engine.Emission
import LogQuery.Proofs.Engine.Progress

/-!
# How a search ends

A stream carries one failure at most, as its last item. Without one it has carried
every record. Unless somebody outside stops a search, its failure names a file that
cannot be read. From wherever a search has come it can be brought to its end.
-/

namespace LogQuery.Engine

open LogQuery.Text LogQuery.Store LogQuery.Log LogQuery.Search LogQuery.Record

variable {job : SearchJob} {s : Search} {c : Channel Item}

/-- A stream carries one failure at most, and as its last item. -/
def OneFailure (items : List Item) : Prop :=
  ∃ records : List String, items = records.map .record ∨
    ∃ f, items = records.map .record ++ [.failure f]

theorem PhaseAt.oneFailure {phase : Phase} (h : PhaseAt job c phase) : OneFailure c.items := by
  cases h with
  | opening _ _ _ hi | reading _ _ _ _ _ hi | sending _ _ _ _ _ _ hi | failing _ hi
  | dropped _ _ hi => exact ⟨_, .inl hi⟩
  | failed _ hi => exact ⟨_, .inr ⟨_, hi⟩⟩
  | complete hc =>
    obtain ⟨records, hr⟩ := records_of_perm hc.perm
    exact ⟨records, .inl hr⟩

theorem Sound.oneFailure (h : Sound job s) : OneFailure s.items := by
  cases h with
  | scanning hf hc =>
    obtain ⟨records, hr⟩ := records_of_perm hc
    exact ⟨records, .inl hr⟩
  | emitting hf hrs hp => exact hp.oneFailure

/-- A stream that ends, not closed and without a failure, has carried every record. -/
theorem Sound.complete (h : Sound job s) (hend : s.phase = .ended)
    (hopen : s.scan.channel.closed = false) (hok : ∀ f, .failure f ∉ s.items) :
    job.Complete s.items := by
  cases h with
  | scanning => cases hend
  | emitting hf hrs hp =>
    cases hend
    cases hp with
    | complete hc => exact hc
    | @failed f _ hw hi => exact absurd (by rw [Search.items, hi]; simp) (hok f)
    | dropped hw hc => exact absurd hc (by rw [hopen]; simp)

/-- In order, no record is sent when a file cannot be read. -/
theorem Sound.withheld (h : Sound job s) (ho : job.ordered = true)
    (hbad : ∃ p ∈ job.files, ¬ Readable job.fs p) :
    (s.items = [] ∧ (s.phase = .ended → s.scan.channel.closed = true)) ∨
      ∃ f, s.items = [.failure f] := by
  obtain ⟨p, hp, hn⟩ := hbad
  have hnot : ¬ job.InOrder := fun hio => hn (hio.readable p hp)
  cases h with
  | scanning hf hc => exact .inl ⟨hc.silent hf ho, fun h => by cases h⟩
  | emitting hf hrs hat =>
    cases hat with
    | opening hio | reading hio | sending hio => exact absurd hio hnot
    | failing hw hi =>
      rw [hw ho ⟨p, hp, hn⟩] at hi
      exact .inl ⟨hi, fun h => by cases h⟩
    | complete hc => exact absurd (hc.readable p hp) hn
    | failed hw hi =>
      rw [hw ho ⟨p, hp, hn⟩] at hi
      exact .inr ⟨_, hi⟩
    | dropped hw hc hi =>
      rw [hw ho ⟨p, hp, hn⟩] at hi
      exact .inl ⟨hi, fun _ => hc⟩

section Untroubled

/-- A failure names a file that cannot be read. -/
def Blames (fs : FileSystem) (files : List FilePath) (f : Failure) : Prop :=
  ∃ p ∈ files, ∃ e, fs.read p = .error e ∧ f = .read p e

/-- A failure of a search names a file that cannot be read, be it the second time. -/
def SearchJob.Blames (job : SearchJob) (f : Failure) : Prop :=
  Engine.Blames job.fs job.files f ∨ Engine.Blames job.again job.files f

/-- Nobody outside has stopped the search. -/
structure Untroubled (job : SearchJob) (s : Search) : Prop where
  scan : Undisturbed s.scan
  failing : ∀ f, s.phase = .failing f → job.Blames f
  failed : ∀ f, .failure f ∈ s.items → job.Blames f

/-- Events that neither cancel a search nor close its stream. -/
def Calm (events : List SearchEvent) : Prop :=
  ∀ e ∈ events, e ≠ .scan .cancel ∧ e ≠ .scan .close

theorem untroubled_start (permits buffer : Capacity) :
    Untroubled job (.start job permits false buffer) where
  scan := undisturbed_start job.files.length permits buffer
  failing f h := by cases h
  failed f h := by cases h

/-- A scan that reads every file is not stopped from inside. -/
theorem Undisturbed.not_stopped {scan : Scan MatchRanges} {sent : Nat → List String}
    (hu : Undisturbed scan) (hf : Faithful job.fs job.visitor job.files scan sent)
    (hr : ∀ p ∈ job.files, Readable job.fs p) : scan.stopped = false := by
  refine Bool.eq_false_iff.mpr fun hs => ?_
  obtain ⟨i, p, e, ht⟩ := hu.cause hs
  have hi : i < job.files.length := hf.length ▸ (List.getElem?_eq_some_iff.mp ht).1
  have hat := hf.task (List.getElem?_eq_getElem hi) ht
  generalize sent i = records at hat
  generalize hp : job.files[i] = path at hat
  cases hat with
  | unreadable he => exact not_readable_iff.mpr ⟨e, he⟩ (hr _ (hp ▸ List.getElem_mem hi))

/-- A step outside the scan keeps a search untroubled. -/
theorem Untroubled.of_scan {scan : Scan MatchRanges} {phase : Phase} (h : Untroubled job s)
    (hs : Undisturbed scan) (hi : scan.channel.items = s.scan.channel.items)
    (hp : ∀ f, phase = .failing f → job.Blames f) : Untroubled job ⟨scan, phase⟩ where
  scan := hs
  failing := hp
  failed f hf := h.failed f (by rwa [Search.items, ← hi])

/-- Sending keeps a search untroubled, if what is sent blames nobody wrongly. -/
theorem Untroubled.of_send {item : Item} {channel : Channel Item} {phase : Phase}
    (h : Untroubled job s) (hc : s.scan.channel.send item = .accepted channel)
    (hitem : ∀ f, item = .failure f → job.Blames f) (hp : ∀ f, phase ≠ .failing f) :
    Untroubled job (s.setChannel channel phase) where
  scan := ⟨(Channel.send_accepted hc).isOpen, h.scan.cause⟩
  failing f hf := absurd hf (hp f)
  failed f hf := by
    rw [Search.items, Search.setChannel, (Channel.send_accepted hc).items] at hf
    rcases List.mem_append.mp hf with hf | hf
    · exact h.failed f hf
    · exact hitem f (List.mem_singleton.mp hf).symm

theorem Untroubled.emit (h : Untroubled job s) (hs : Sound job s) :
    Untroubled job (s.emit job) := by
  have he := emit_emits job s
  generalize s.emit job = s' at he ⊢
  generalize hphase : s.phase = phase at he
  cases he with
  | unfinished | allRead | skipped | opened | exhausted | passed | matched | unmatched
  | failureRefused | settled => exact h.of_scan h.scan rfl (by simp)
  | scanned =>
    refine h.of_scan h.scan rfl fun f hf => ?_
    split at hf <;> cases hf
  | blocked => exact h.of_scan h.scan rfl fun f hf => h.failing f (hphase.trans hf)
  | scanFailed hrs hc =>
    obtain ⟨sent, hf⟩ := hs.faithful
    refine h.of_scan h.scan rfl fun f hf' => ?_
    cases hf'
    exact .inl (h.scan.failure hf hrs hc)
  | unopened hr =>
    have hat := hs.phaseAt (by simp [hphase])
    rw [hphase] at hat
    cases hat with
    | opening ho hf hrest =>
      obtain ⟨path, files, rfl, hpath, -⟩ := List.map_eq_cons_iff.mp hrest.symm
      cases hpath
      refine h.of_scan h.scan rfl fun f hf' => ?_
      cases hf'
      exact .inr ⟨_, by rw [hf]; simp, _, FileSystem.read_of_not_opened hr, rfl⟩
  | failed hn =>
    have hat := hs.phaseAt (by simp [hphase])
    rw [hphase] at hat
    cases hat with
    | reading ho hf hrest hr =>
      refine h.of_scan h.scan rfl fun f hf' => ?_
      cases hf'
      exact .inr ⟨_, by rw [hf]; simp, _, (hr.failed hn).1, rfl⟩
  | interrupted hn hstop =>
    have hat := hs.phaseAt (by simp [hphase])
    rw [hphase] at hat
    cases hat with
    | reading ho =>
      obtain ⟨sent, hf⟩ := hs.faithful
      exact absurd (hstop.symm.trans (h.scan.not_stopped hf ho.readable)) (by simp)
  | sent hc => exact h.of_send hc (by simp) (by simp)
  | refused hc => exact absurd (h.scan.opened.symm.trans (Channel.send_refused hc)) (by simp)
  | failureSent hc =>
    refine h.of_send hc (fun f hf => ?_) (by simp)
    cases hf
    exact h.failing _ hphase

theorem Untroubled.step (h : Untroubled job s) (hs : Sound job s) {e : SearchEvent}
    (he : e ≠ .scan .cancel ∧ e ≠ .scan .close) : Untroubled job (s.step job e) := by
  cases e with
  | emit => exact h.emit hs
  | scan e =>
    obtain ⟨_, hfaith⟩ := hs.faithful
    have hquiet : Quiet [e] := by
      refine List.forall_mem_singleton.mpr ⟨?_, ?_⟩
      · rintro rfl
        exact he.1 rfl
      · rintro rfl
        exact he.2 rfl
    have hu : Undisturbed (s.scan.step job.fs job.visitor job.files e) := h.scan.run hfaith.length hquiet
    refine ⟨hu, h.failing, fun f hfail => ?_⟩
    cases hs with
    | scanning hf hc =>
      obtain ⟨sent', -, hc'⟩ := hf.step hc e
      obtain ⟨record, -, hrecord⟩ := List.mem_map.mp (hc'.mem_iff.mp hfail)
      cases hrecord
    | emitting hf hrs hat =>
      refine h.failed f ?_
      rwa [Search.items, ← (step_of_results hrs e).2.1]

theorem Untroubled.run (hu : Unchanged job.fs job.again) (h : Untroubled job s) (hs : Sound job s)
    {events : List SearchEvent} (hc : Calm events) : Untroubled job (s.run job events) := by
  induction events generalizing s with
  | nil => exact h
  | cons e events ih =>
    obtain ⟨he, hrest⟩ := List.forall_mem_cons.mp hc
    exact ih (h.step hs he) (hs.step hu e) hrest

end Untroubled

section Progress

/-- How many steps reading a file again may need. -/
def SearchJob.cost (job : SearchJob) (p : FilePath) : Nat := 2 * (linesIn job.again p).length + 2

/-- How many steps reading some files again may need. -/
def SearchJob.costs (job : SearchJob) (rest : List (FilePath × MatchRanges)) : Nat :=
  total (rest.map fun r => job.cost r.1) + 1

/-- How many steps a search may still need once its scan is over. -/
def Phase.left (job : SearchJob) : Phase → Nat
  | scanning => total (job.files.map job.cost) + 2
  | opening rest => job.costs rest
  | reading _ reader _ _ rest => 2 * reader.toList.length + 1 + job.costs rest
  | sending _ _ reader _ _ rest => 2 * reader.toList.length + 2 + job.costs rest
  | failing _ => 1
  | ended => 0

theorem Phase.left_eq_zero {phase : Phase} (h : phase.left job = 0) : phase = .ended := by
  cases phase with
  | ended => rfl
  | _ => simp [left, SearchJob.costs] at h

theorem costs_zip_le (files : List FilePath) (found : List MatchRanges) :
    job.costs (files.zip found) ≤ total (files.map job.cost) + 1 := by
  induction files generalizing found with
  | nil => exact Nat.le_refl _
  | cons p files ih =>
    cases found with
    | nil => simp [SearchJob.costs, total]
    | cons ranges found =>
      have hrest := ih found
      simp only [SearchJob.costs, total, List.zip_cons_cons, List.map_cons, List.foldr_cons] at hrest ⊢
      omega

/-- A step after the scan that is not held up brings the search nearer to its end. -/
theorem Emits.forward {phase : Phase} {s' : Search} (he : Emits job s phase s')
    (hrs : s.scan.results? ≠ none) (hgo : ∀ item, s.scan.channel.send item ≠ .full) :
    s'.phase.left job ≤ phase.left job - 1 := by
  cases he with
  | unfinished h => exact absurd h hrs
  | blocked _ h => exact absurd h (hgo _)
  | scanned =>
    cases job.ordered with
    | true => exact costs_zip_le _ _
    | false => exact Nat.zero_le _
  | scanFailed => exact Nat.succ_pos _
  | allRead | failureSent | failureRefused | settled => exact Nat.zero_le _
  | skipped | unopened =>
    simp only [Phase.left, SearchJob.costs, SearchJob.cost, total, List.map_cons, List.foldr_cons]
    omega
  | opened hlast hr =>
    simp only [Phase.left, SearchJob.costs, SearchJob.cost, total, List.map_cons, List.foldr_cons,
      linesIn_of_openFile hr]
    omega
  | exhausted | failed | interrupted | passed | refused =>
    simp only [Phase.left, SearchJob.costs]
    omega
  | matched hn | unmatched hn =>
    simp only [Phase.left, LineReader.toList_of_next_some hn, List.length_cons]
    omega
  | sent =>
    simp only [Search.setChannel, Phase.left]
    omega

/-- What is in the channel after a step. -/
theorem Emits.channel {phase : Phase} {s' : Search} (he : Emits job s phase s') :
    s'.scan.channel.closed = s.scan.channel.closed ∧
      s'.scan.channel.capacity = s.scan.channel.capacity ∧
      s'.scan.channel.queue.length ≤ s.scan.channel.queue.length + 1 := by
  cases he with
  | sent hc | failureSent hc =>
    obtain ⟨ho, hd, hcap, -, hlen⟩ := Channel.send_accepted hc
    exact ⟨hd.trans ho.symm, hcap, Nat.le_of_eq hlen⟩
  | _ => exact ⟨rfl, rfl, Nat.le_succ _⟩

theorem Emits.tasks {phase : Phase} {s' : Search} (he : Emits job s phase s') :
    s'.scan.tasks = s.scan.tasks := by
  cases he <;> rfl

theorem Emits.permits {phase : Phase} {s' : Search} (he : Emits job s phase s') :
    s'.scan.permits = s.scan.permits := by
  cases he <;> rfl

/-- Once the scan is over, the search ends while its items are received. -/
theorem emits_to_end (m : Nat) (hrs : s.scan.results? ≠ none) (hcap : 0 < s.scan.channel.capacity)
    (hd : Drained s.scan.channel) (hm : s.phase.left job ≤ m) :
    (s.run job (List.replicate m [SearchEvent.emit, .scan .receive]).flatten).phase = .ended := by
  induction m generalizing s with
  | zero => exact Phase.left_eq_zero (Nat.le_zero.mp hm)
  | succ m ih =>
    have he := emit_emits job s
    obtain ⟨hclosed, hcap', hlen⟩ := he.channel
    have hleft := he.forward hrs (hd.send_ne_full hcap)
    have hrs' : (s.emit job).scan.results? ≠ none := by rwa [results?_congr he.tasks]
    have hnext := ih (s := (s.emit job).step job (.scan .receive)) hrs'
      (by simpa [Search.step, Scan.step, hcap'] using hcap) (hd.receive hclosed hlen)
      (by change (s.emit job).phase.left job ≤ m; omega)
    rwa [List.replicate_succ, List.flatten_cons, Search.run, List.foldl_append]

theorem run_scan (s : Search) (events : List ScanEvent) :
    s.run job (events.map .scan) =
      ⟨s.scan.run job.fs job.visitor job.files events, s.phase⟩ := by
  induction events generalizing s with
  | nil => rfl
  | cons e events ih => exact ih (s.step job (.scan e))

/-- A search ends by the events that bring its scan to its end, and then enough rounds. -/
theorem ended_after_scan (m : Nat) {events : List ScanEvent}
    (hcap : 0 < (s.scan.run job.fs job.visitor job.files events).channel.capacity)
    (hover : Drained (s.scan.run job.fs job.visitor job.files events).channel ∧
      ∃ rs, (s.scan.run job.fs job.visitor job.files events).results? = some rs)
    (hm : s.phase.left job ≤ m) :
    (s.run job (events.map .scan ++
      (List.replicate m [SearchEvent.emit, .scan .receive]).flatten)).phase = .ended := by
  obtain ⟨hd, rs, hrs⟩ := hover
  have hscan : s.run job (events.map .scan) = _ := run_scan s events
  rw [Search.run, List.foldl_append]
  change (Search.run job (s.run job (events.map .scan)) _).phase = .ended
  rw [hscan]
  exact emits_to_end m (Option.ne_none_iff_exists'.mpr ⟨rs, hrs⟩) hcap hd hm

theorem total_map_le (files : List FilePath) {f g : FilePath → Nat} (h : ∀ p, f p ≤ g p) :
    total (files.map f) ≤ total (files.map g) := by
  induction files with
  | nil => exact Nat.le_refl _
  | cons p files ih => exact Nat.add_le_add (h p) ih

/-- Scanning one file after the other and sending then brings a search to its end. -/
theorem inTurn_ended (permits buffer : Capacity) (cancelled : Bool) :
    ((Search.start job permits cancelled buffer).run job job.inTurn).phase = .ended := by
  have hcost : ∀ p, job.cost p ≤ stepsFor job.again p := by
    intro p
    cases h : job.again.openFile p <;> simp [SearchJob.cost, stepsFor, linesIn, h]
  have hle := total_map_le job.files hcost
  refine ended_after_scan _ ((balanced_start permits buffer cancelled).run _).capacity
    (inTurn_ends permits buffer cancelled) ?_
  change total (job.files.map job.cost) + 2 ≤ _
  omega

variable {n : Nat}

theorem Balanced.search_step (h : Balanced job.files n s.scan) (e : SearchEvent) :
    Balanced job.files n (s.step job e).scan := by
  cases e with
  | scan e => exact h.step e
  | emit =>
    have he := emit_emits job s
    change Balanced job.files n (s.emit job).scan
    refine ⟨?_, ?_, ?_⟩
    · rw [he.tasks]
      exact h.length
    · rw [he.tasks, he.permits]
      exact h.permits
    · rw [he.channel.2.1]
      exact h.capacity

theorem Balanced.search_run (h : Balanced job.files n s.scan) (events : List SearchEvent) :
    Balanced job.files n (s.run job events).scan := by
  induction events generalizing s with
  | nil => exact h
  | cons e events ih => exact ih (h.search_step e)

theorem calm_scan {events : List ScanEvent} (h : Onward events) : Calm (events.map .scan) := by
  intro e he
  obtain ⟨e', hmem, rfl⟩ := List.mem_map.mp he
  rcases h e' hmem with rfl | ⟨i, rfl⟩ <;> simp

theorem calm_rounds (m : Nat) :
    Calm (List.replicate m [SearchEvent.emit, .scan .receive]).flatten := by
  intro e he
  obtain ⟨es, hes, he⟩ := List.mem_flatten.mp he
  rw [List.eq_of_mem_replicate hes] at he
  rcases List.mem_pair.mp he with rfl | rfl <;> simp

/-- From wherever a search has come it can be brought to its end. -/
theorem Balanced.search_ends (h : Balanced job.files n s.scan) (hn : 0 < n) :
    ∃ events, Calm events ∧ (s.run job events).phase = .ended := by
  obtain ⟨scanning, honward, hover⟩ := h.ends hn
  refine ⟨_, ?_, ended_after_scan (s.phase.left job) (h.run scanning).capacity hover (Nat.le_refl _)⟩
  exact List.forall_mem_append.mpr ⟨calm_scan honward, calm_rounds _⟩

end Progress

end LogQuery.Engine
