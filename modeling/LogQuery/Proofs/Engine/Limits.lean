import LogQuery.Proofs.Engine.Completeness

/-!
# More than there can be

Settings may ask for more tasks at once than a semaphore has permits, or for more records
that wait than a channel holds. Within the bounds all answers are whole. Beyond them an
answer that needs a scan is broken off; and a search, which is answered before it scans,
ends with nothing on its stream and without a failure, whatever its files hold.
-/

namespace LogQuery.Engine

open LogQuery.Text LogQuery.Store LogQuery.Log LogQuery.Search LogQuery.Record

variable {s : Settings} {fs : FileSystem} {plan : Plan} {files : List FilePath} {cancelled : Bool}

section Settings

theorem Settings.run_within (hp : s.maxParallelism ≤ maxCapacity)
    (hb : plan.kind = .search → s.searchBuffer ≤ maxCapacity) :
    s.run fs plan files cancelled =
      (Engine.run s.config fs plan files cancelled).mapError .failure := by
  have hbuffer : (plan.kind == .search && decide (s.searchBuffer > maxCapacity)) = false := by
    by_cases hk : plan.kind = .search
    · have := hb hk
      simp only [Bool.and_eq_false_iff, decide_eq_false_iff_not]
      omega
    · simp [hk]
  have hpermits : (needsScan plan && decide (s.maxParallelism > maxCapacity)) = false := by
    simp only [Bool.and_eq_false_iff, decide_eq_false_iff_not]
    omega
  rw [Settings.run, if_neg (by simp [hbuffer]), if_neg (by simp [hpermits])]

/-- Without a channel there is no stream. -/
theorem Settings.run_without_channel (hk : plan.kind = .search)
    (hb : maxCapacity < s.searchBuffer) : s.run fs plan files cancelled = .error .brokenOff := by
  rw [Settings.run, hk, if_pos (by simpa using hb)]

/-- Without a semaphore a search ends before it has sent anything. -/
theorem Settings.run_search_without_permits (hk : plan.kind = .search)
    (hb : s.searchBuffer ≤ maxCapacity) (hp : maxCapacity < s.maxParallelism) :
    s.run fs plan files cancelled = .ok (.search []) := by
  have hneeds : needsScan plan = true := by rw [needsScan, hk]
  rw [Settings.run, hneeds, hk, if_neg (by simpa using hb), if_pos (by simpa using hp)]
  rfl

/-- Without a semaphore nothing is gathered. -/
theorem Settings.run_without_permits (hk : plan.kind ≠ .search) (hn : needsScan plan = true)
    (hp : maxCapacity < s.maxParallelism) : s.run fs plan files cancelled = .error .brokenOff := by
  have hkind : (plan.kind == .search) = false := beq_eq_false_iff_ne.mpr hk
  rw [Settings.run, hn, hkind, if_neg (by simp), if_pos (by simpa using hp), if_neg (by simp)]

/-- Settings answer as the bounded ones do, but for a search that ends before it starts. -/
theorem Settings.run_eq_ok {a : Answer} (h : s.run fs plan files cancelled = .ok a) :
    Engine.run s.config fs plan files cancelled = .ok a ∨ a = .search [] := by
  rw [Settings.run] at h
  split at h
  · cases h
  · split at h
    · split at h
      · cases h
        exact .inr rfl
      · cases h
    · cases hrun : Engine.run s.config fs plan files cancelled with
      | error f =>
        rw [hrun] at h
        cases h
      | ok b =>
        rw [hrun] at h
        cases h
        exact .inl rfl

theorem needsScan_of_gathers (hg : Gathers plan) : needsScan plan = true := by
  unfold needsScan
  cases hk : plan.kind with
  | count | search => rfl
  | distinct | countDistinct =>
    obtain ⟨path, hpath⟩ := hg (by simp [hk])
    simp [hpath]

end Settings

section Searches

variable {counter : Plan}

theorem SendsAll.of_nil {c : Config} {records : List String} (h : SendsAll c records []) :
    records = [] :=
  List.map_eq_nil_iff.mp h.1.nil_eq.symm

/-- A search of readable files sends all records in the right order, and a count is their
number, with whatever numbers of tasks and of waiting records there can be. With other
numbers a search does so only if there is nothing to send, since it then ends with nothing
on its stream; and a count has no answer. -/
theorem search_sends_all_iff (hfiles : ∀ p ∈ files, Readable fs p)
    (hsearch : plan.kind = .search) (hcount : counter.kind = .count)
    (hfields : counter.fields = plan.fields) (hdates : counter.dates = plan.dates) :
    (∀ c : Config, SearchesAll c fs plan counter files) ∧
    ∀ s : Settings,
      ((∃ items, s.run fs plan files false = .ok (.search items) ∧
          SendsAll s.config (recordsIn fs plan files) items) ↔
        s.searchBuffer ≤ maxCapacity ∧
          (s.maxParallelism ≤ maxCapacity ∨ recordsIn fs plan files = [])) ∧
      (s.searchBuffer ≤ maxCapacity → maxCapacity < s.maxParallelism →
        s.run fs plan files false = .ok (.search [])) ∧
      (s.run fs counter files false = .ok (.count (recordsIn fs plan files).length) ↔
        s.maxParallelism ≤ maxCapacity) := by
  have hall : ∀ c : Config, SearchesAll c fs plan counter files := fun c =>
    searchesAll c hfiles hsearch hcount hfields hdates
  refine ⟨hall, fun s => ⟨⟨?_, ?_⟩, Settings.run_search_without_permits hsearch, ?_, ?_⟩⟩
  · intro h
    obtain ⟨items, hrun, hsends⟩ := h
    have hb : s.searchBuffer ≤ maxCapacity := by
      by_contra hb
      rw [Settings.run_without_channel hsearch (by omega)] at hrun
      cases hrun
    refine ⟨hb, ?_⟩
    by_cases hp : s.maxParallelism ≤ maxCapacity
    · exact .inl hp
    · rw [Settings.run_search_without_permits hsearch hb (by omega)] at hrun
      cases hrun
      exact .inr hsends.of_nil
  · intro h
    obtain ⟨hb, hp⟩ := h
    by_cases hle : s.maxParallelism ≤ maxCapacity
    · obtain ⟨items, hrun, hsends⟩ := (hall s.config).inTurn
      refine ⟨items, ?_, hsends⟩
      rw [Settings.run_within hle fun _ => hb, hrun]
      rfl
    · refine ⟨[], Settings.run_search_without_permits hsearch hb (by omega), ?_⟩
      rw [hp.resolve_left hle]
      exact ⟨.refl _, fun _ => rfl⟩
  · intro hrun
    by_contra hp
    have hneeds : needsScan counter = true := by rw [needsScan, hcount]
    rw [Settings.run_without_permits (by simp [hcount]) hneeds (by omega)] at hrun
    cases hrun
  · intro hp
    rw [Settings.run_within hp (by simp [hcount]), (hall s.config).countsInTurn]
    rfl

theorem readable_theLog : Readable threeLines theLog := ⟨_, rfl⟩

/-- The log is given twice, and one task runs at a time. -/
theorem threeLines_search :
    let s : Settings := ⟨⟨"/"⟩, 1, false, 1⟩
    s.run threeLines (large .search) [theLog, theLog] false =
      .ok (.search [.record "\x7b\"n\":3\x7d", .record "\x7b\"n\":3\x7d"]) ∧
    s.run threeLines (large .count) [theLog, theLog] false = .ok (.count 2) := by
  intro s
  have hread : ∀ p ∈ [theLog, theLog], Readable threeLines p := by
    intro p hp
    obtain rfl : p = theLog := by simpa using hp
    exact readable_theLog
  have hsearch : (large .search).kind = .search := rfl
  have hcount : (large .count).kind = .count := rfl
  obtain ⟨hall, hiff⟩ := search_sends_all_iff hread hsearch hcount rfl rfl
  obtain ⟨⟨-, hsends⟩, -, -, hcounts⟩ := hiff s
  obtain ⟨items, hrun, -, hsorted⟩ := hsends ⟨by decide, .inl (by decide)⟩
  have hrecords : recordsIn threeLines (large .search) [theLog, theLog] =
      ["\x7b\"n\":3\x7d", "\x7b\"n\":3\x7d"] := by decide +kernel
  rw [hrecords] at hsorted hcounts
  rw [hrun, hsorted rfl]
  exact ⟨rfl, hcounts (by decide)⟩

/-- One task more than a semaphore has permits. -/
def tooMany : Settings := ⟨⟨"/"⟩, maxCapacity + 1, false, 1⟩

theorem run_tooMany : tooMany.run threeLines (large .search) [theLog] false = .ok (.search []) :=
  Settings.run_search_without_permits rfl (by decide) (by decide)

theorem not_sendsAll_nil :
    ¬ SendsAll tooMany.config (recordsIn threeLines (large .search) [theLog]) [] := by
  intro h
  have hrecords : recordsIn threeLines (large .search) [theLog] = ["\x7b\"n\":3\x7d"] := by
    decide +kernel
  rw [hrecords] at h
  cases h.of_nil

/-- With one task too many the record of a log is not sent. -/
theorem record_not_sent :
    ¬ ∀ (s : Settings) (fs : FileSystem) (plan : Plan) (files : List FilePath),
      (∀ p ∈ files, Readable fs p) → plan.kind = .search →
        ∃ items, s.run fs plan files false = .ok (.search items) ∧
          SendsAll s.config (recordsIn fs plan files) items := by
  intro hclaim
  have hread : ∀ p ∈ [theLog], Readable threeLines p := by
    intro p hp
    obtain rfl := List.mem_singleton.mp hp
    exact readable_theLog
  obtain ⟨items, hrun, hsends⟩ := hclaim tooMany threeLines (large .search) [theLog] hread rfl
  rw [run_tooMany] at hrun
  cases hrun
  exact not_sendsAll_nil hsends

end Searches

section Queries

/-- A compiled query answers with all of it or fails, whatever the order in which its tasks
go on and whenever it is cancelled, also when a file that was scanned cannot be read again.
With more tasks at once than there can be, an answer that is gathered is broken off, and a
search ends without a failure and without a record. -/
theorem compiled_query_whole {q : Query.Marked} {select : Sql.Select}
    (hplan : Plan.ofSelect q select = .ok plan) (fs : FileSystem) (files : List FilePath)
    (cancelled : Bool) :
    (∀ c : Config,
      (plan.kind ≠ .search → AnswersWhole c fs plan files cancelled) ∧
      (plan.kind = .search → ∀ again, Unchanged fs again → ∀ events,
        StreamsWhole c fs again plan files cancelled events
          (searchAmid c fs again plan files cancelled events))) ∧
    ∀ s : Settings,
      (s.maxParallelism ≤ maxCapacity → (plan.kind = .search → s.searchBuffer ≤ maxCapacity) →
        s.run fs plan files cancelled =
          (run s.config fs plan files cancelled).mapError .failure) ∧
      (maxCapacity < s.maxParallelism →
        (plan.kind ≠ .search → s.run fs plan files cancelled = .error .brokenOff) ∧
        (plan.kind = .search → s.searchBuffer ≤ maxCapacity →
          s.run fs plan files cancelled = .ok (.search []))) := by
  have hg : Gathers plan := Plan.aggregation_of_ofSelect hplan
  refine ⟨fun c => ⟨fun hk => answersWhole hk hg, fun _ again hu => streamsWhole hu⟩, fun s => ?_⟩
  refine ⟨Settings.run_within, fun hp => ⟨fun hk => ?_, fun hk hb => ?_⟩⟩
  · exact Settings.run_without_permits hk (needsScan_of_gathers hg) hp
  · exact Settings.run_search_without_permits hk hb hp

/-- A count over a log that can be read and one that is not there. -/
theorem largeCount_whole : Plan.ofSelect (Query.Marked.ofChars []) Plan.largeCount =
      .ok Plan.largeCountPlan ∧
    AnswersWhole ⟨⟨"/"⟩, 1, false, 1⟩ threeLines Plan.largeCountPlan [theLog, ⟨"/missing"⟩] false :=
  ⟨Plan.ofSelect_largeCount,
    ((compiled_query_whole Plan.ofSelect_largeCount _ _ _).1 _).1 (by decide)⟩

/-- All fields of the logs with `n > 2`. -/
def largeSearch : Sql.Select where
  duplicates := .kept
  items := [.star]
  tables := [⟨.table [⟨"logs", none⟩], false⟩]
  condition := some
    (.binary (.comparison .gt) (.ident ⟨"n", none⟩) (.literal (.number "2" false)))
  grouped := false
  having := false

theorem ofSelect_largeSearch :
    Plan.ofSelect (Query.Marked.ofChars []) largeSearch = .ok (large .search) := rfl

/-- With one task too many a stream ends without a failure and without the record of a log. -/
theorem stream_ends_short :
    ¬ ∀ (q : Query.Marked) (select : Sql.Select) (plan : Plan),
      Plan.ofSelect q select = .ok plan → plan.kind = .search →
      ∀ (s : Settings) (fs : FileSystem) (files : List FilePath) (items : List Item),
        s.run fs plan files false = .ok (.search items) → (∀ f, .failure f ∉ items) →
          SendsAll s.config (recordsIn fs plan files) items := by
  intro hclaim
  have hsends := hclaim _ _ _ ofSelect_largeSearch rfl tooMany threeLines [theLog] [] run_tooMany
    (by simp)
  exact not_sendsAll_nil hsends

end Queries

end LogQuery.Engine
