import LogQuery.Proofs.Engine.Stream

/-!
# Answers

A count, a list of distinct values and their counts are gathered by one scan. Such
an answer is about all lines of all files or it is a failure, whatever the order in
which the tasks go on and whenever the query is cancelled.
-/

namespace LogQuery.Engine

open LogQuery.Text LogQuery.Store LogQuery.Log LogQuery.Search LogQuery.Record

/-- The texts under which the lines of some files count, file by file. -/
def keysIn (fs : FileSystem) (plan : Plan) (path : Path) (files : List FilePath) : List String :=
  files.flatMap fun p => keysOn plan path (linesIn fs p)

/-- The counts a plan asks for, over all lines of some files. -/
def countsIn (fs : FileSystem) (plan : Plan) (files : List FilePath) : Counts :=
  plan.aggregation.elim .empty fun path => .ofKeys (keysIn fs plan path files)

/-- What a plan answers from all lines of all files. -/
def completeAnswer (fs : FileSystem) (plan : Plan) (files : List FilePath) : Answer :=
  match plan.kind with
  | .count => .count (recordsIn fs plan files).length
  | .distinct => .distinct (countsIn fs plan files).keys
  | .countDistinct => .countDistinct (countsIn fs plan files)
  | .search => .search ((recordsIn fs plan files).map .record)

/-- Answers are made of the records and the texts that count, wherever these are found. -/
theorem completeAnswer_congr {fs fs' : FileSystem} {plan : Plan} {files files' : List FilePath}
    (hrecords : recordsIn fs plan files = recordsIn fs' plan files')
    (hkeys : ∀ path, keysIn fs plan path files = keysIn fs' plan path files') :
    completeAnswer fs plan files = completeAnswer fs' plan files' := by
  have hcounts : countsIn fs plan files = countsIn fs' plan files' := by
    rw [countsIn, countsIn]
    simp only [hkeys]
  rw [completeAnswer, completeAnswer, hrecords, hcounts]

section Scans

variable {α : Type} {c : Config} {fs : FileSystem} {visitor : Visitor α} {files : List FilePath}
  {cancelled : Bool} {events : List ScanEvent} {r : Except Failure (List α)}

/-- The scan that a query makes, after some events. -/
def scanAfter (c : Config) (fs : FileSystem) (visitor : Visitor α) (files : List FilePath)
    (cancelled : Bool) (events : List ScanEvent) : Scan α :=
  (Scan.start files.length c.maxParallelism cancelled c.searchBuffer).run fs visitor files events

theorem scanAfter_faithful : ∃ sent,
    Faithful fs visitor files (scanAfter c fs visitor files cancelled events) sent := by
  obtain ⟨sent, hf, -⟩ : ∃ sent, Faithful fs visitor files _ sent ∧ _ :=
    (faithful_start c.maxParallelism cancelled c.searchBuffer).run (carries_start ..) events
  exact ⟨sent, hf⟩

theorem scanUnder_eq_some (h : scanUnder c fs visitor files cancelled events = some r) :
    ∃ rs, (scanAfter c fs visitor files cancelled events).results? = some rs ∧ collect rs = r :=
  Option.map_eq_some_iff.mp h

/-- What a scan finds does not depend on the order of its events. -/
theorem scanUnder_ok {found : List α}
    (h : scanUnder c fs visitor files cancelled events = some (.ok found)) :
    (∀ p ∈ files, Readable fs p) ∧ found = files.map fun p => visitor.found (linesIn fs p) := by
  obtain ⟨rs, hrs, hc⟩ := scanUnder_eq_some h
  obtain ⟨sent, hf⟩ := scanAfter_faithful
  obtain ⟨hread, hfound, -⟩ := hf.of_ok hrs hc
  exact ⟨hread, hfound⟩

/-- A scan that nobody cancels fails only for a file that cannot be read. -/
theorem scanUnder_error {f : Failure} (hq : Quiet events)
    (h : scanUnder c fs visitor files false events = some (.error f)) : Blames fs files f := by
  obtain ⟨rs, hrs, hc⟩ := scanUnder_eq_some h
  obtain ⟨sent, hf⟩ := scanAfter_faithful
  have hu : Undisturbed (scanAfter c fs visitor files false events) :=
    Undisturbed.run (undisturbed_start files.length c.maxParallelism c.searchBuffer)
      (by simp [Scan.start]) hq
  exact hu.failure hf hrs hc

/-- A scan can always be brought to its end. -/
theorem scanUnder_ends (events : List ScanEvent) : ∃ more, Onward more ∧
    ∃ r, scanUnder c fs visitor files cancelled (events ++ more) = some r := by
  obtain ⟨more, honward, -, rs, hrs⟩ :=
    ((balanced_start c.maxParallelism c.searchBuffer cancelled).run events).ends (by omega)
  refine ⟨more, honward, collect rs, ?_⟩
  rw [scanUnder, Scan.run, List.foldl_append]
  exact congrArg (Option.map collect) hrs

theorem scanUnder_inTurn :
    ∃ r, scanUnder c fs visitor files cancelled (inTurn fs files) = some r := by
  obtain ⟨-, rs, hrs⟩ := inTurn_ends c.maxParallelism c.searchBuffer cancelled
  exact ⟨collect rs, congrArg (Option.map collect) hrs⟩

end Scans

section Answers

variable {c : Config} {fs : FileSystem} {plan : Plan} {files : List FilePath} {cancelled : Bool}

/-- Whether a plan says which values it gathers, if it gathers values. -/
def Gathers (plan : Plan) : Prop :=
  plan.kind = .distinct ∨ plan.kind = .countDistinct → ∃ path, plan.aggregation = some path

theorem total_map_length {α β : Type} (f : α → List β) (xs : List α) :
    total (xs.map fun x => (f x).length) = (xs.flatMap f).length := by
  induction xs with
  | nil => rfl
  | cons x xs ih => simpa [total] using ih

/-- The counts of the files, merged, are the counts over all lines. -/
theorem merged_counts {path : Path} (hpath : plan.aggregation = some path) :
    (files.map fun p => (countingValues plan path).found (linesIn fs p)).foldl .merge .empty =
      countsIn fs plan files := by
  have hfound : (files.map fun p => (countingValues plan path).found (linesIn fs p)) =
      (files.map fun p => keysOn plan path (linesIn fs p)).map .ofKeys := by
    rw [List.map_map]
    exact List.map_congr_left fun p _ => found_countingValues path (linesIn fs p)
  rw [hfound, Counts.foldl_merge_ofKeys, countsIn, hpath]
  rfl

/-- Every answer that is no search is made of what one scan finds. -/
theorem answerUnder_eq (c : Config) (fs : FileSystem) (files : List FilePath)
    (hk : plan.kind ≠ .search) (hg : Gathers plan) :
    ∃ (α : Type) (visitor : Visitor α) (answer : List α → Answer),
      (∀ cancelled events, answerUnder c fs plan files cancelled events =
        (scanUnder c fs visitor files cancelled events).map (·.map answer)) ∧
      answer (files.map fun p => visitor.found (linesIn fs p)) = completeAnswer fs plan files := by
  cases hkind : plan.kind with
  | search => exact absurd hkind hk
  | count =>
    refine ⟨Nat, counting plan, fun ns => .count (total ns), fun _ _ => by rw [answerUnder, hkind], ?_⟩
    rw [completeAnswer, hkind]
    simp only [found_counting, length_matching]
    rw [total_map_length]
    rfl
  | distinct =>
    obtain ⟨path, hpath⟩ := hg (.inl hkind)
    refine ⟨Counts, countingValues plan path, fun cs =>
      .distinct (cs.foldl Counts.merge Counts.empty).keys, fun _ _ => ?_, ?_⟩
    · simp only [answerUnder, hkind, valuesUnder, hpath, Option.map_map]
      congr 1
      funext r
      cases r <;> rfl
    · rw [completeAnswer, hkind]
      simp only [merged_counts hpath]
  | countDistinct =>
    obtain ⟨path, hpath⟩ := hg (.inr hkind)
    refine ⟨Counts, countingValues plan path, fun cs =>
      .countDistinct (cs.foldl Counts.merge Counts.empty), fun _ _ => ?_, ?_⟩
    · simp only [answerUnder, hkind, valuesUnder, hpath, Option.map_map]
      congr 1
      funext r
      cases r <;> rfl
    · rw [completeAnswer, hkind]
      simp only [merged_counts hpath]

/-- An answer is about all lines of all files, whatever the order of the events. -/
theorem answerUnder_ok (hk : plan.kind ≠ .search) (hg : Gathers plan) {events : List ScanEvent}
    {a : Answer} (h : answerUnder c fs plan files cancelled events = some (.ok a)) :
    (∀ p ∈ files, Readable fs p) ∧ a = completeAnswer fs plan files := by
  obtain ⟨α, visitor, answer, heq, hcomplete⟩ := answerUnder_eq c fs files hk hg
  rw [heq] at h
  obtain ⟨r, hr, ha⟩ := Option.map_eq_some_iff.mp h
  cases r with
  | error f => cases ha
  | ok found =>
    cases ha
    obtain ⟨hread, rfl⟩ := scanUnder_ok hr
    exact ⟨hread, hcomplete⟩

/-- A query that nobody cancels fails only for a file that cannot be read. -/
theorem answerUnder_error (hk : plan.kind ≠ .search) (hg : Gathers plan) {events : List ScanEvent}
    (hq : Quiet events) {f : Failure}
    (h : answerUnder c fs plan files false events = some (.error f)) : Blames fs files f := by
  obtain ⟨α, visitor, answer, heq, -⟩ := answerUnder_eq c fs files hk hg
  rw [heq] at h
  obtain ⟨r, hr, ha⟩ := Option.map_eq_some_iff.mp h
  cases r with
  | ok found => cases ha
  | error g =>
    cases ha
    exact scanUnder_error hq hr

theorem answerUnder_ends (hk : plan.kind ≠ .search) (hg : Gathers plan) (events : List ScanEvent) :
    ∃ more, Onward more ∧ ∃ r, answerUnder c fs plan files cancelled (events ++ more) = some r := by
  obtain ⟨α, visitor, answer, heq, -⟩ := answerUnder_eq c fs files hk hg
  obtain ⟨more, honward, r, hr⟩ := scanUnder_ends events
  exact ⟨more, honward, r.map answer, by rw [heq, hr]; rfl⟩

/-- Running the tasks one after the other gives one of these answers. -/
theorem answerUnder_inTurn (hk : plan.kind ≠ .search) (hg : Gathers plan) :
    answerUnder c fs plan files cancelled (inTurn fs files) = some (run c fs plan files cancelled) := by
  obtain ⟨α, visitor, answer, heq, -⟩ := answerUnder_eq c fs files hk hg
  obtain ⟨r, hr⟩ := scanUnder_inTurn
  have hsome := heq cancelled (inTurn fs files)
  rw [hr] at hsome
  rw [hsome, run]
  cases hkind : plan.kind with
  | search => exact absurd hkind hk
  | _ => rw [hsome]; rfl

end Answers

end LogQuery.Engine
