import LogQuery.Proofs.Compile.Select
import LogQuery.Proofs.Engine.Answers

/-!
# Answers are complete

A search of readable files sends every record that matches and no other, and a count
is their number. When files cannot be read, or when the query is cancelled, answers
that gather values are complete or fail, and a stream says at its end that it failed.
All of this is about numbers of tasks and of records that there can be.
-/

namespace LogQuery.Engine

open LogQuery.Text LogQuery.Store LogQuery.Log LogQuery.Search LogQuery.Record

variable {c : Config} {fs : FileSystem} {plan : Plan} {files : List FilePath} {cancelled : Bool}

section Searches

variable {again : FileSystem} {events : List SearchEvent}

theorem searchAmid_sound (hu : Unchanged fs again) :
    Sound (rereadingJob c fs again plan files)
      (searchAmid c fs again plan files cancelled events) :=
  Sound.run hu (sound_start ..) events

theorem searchUnder_sound :
    Sound (searchJob c fs plan files) (searchUnder c fs plan files cancelled events) :=
  searchAmid_sound (.refl fs)

/-- A search can always be brought to its end. -/
theorem searchAmid_ends (events : List SearchEvent) : ∃ more, Calm more ∧
    (searchAmid c fs again plan files cancelled (events ++ more)).phase = .ended := by
  let job := rereadingJob c fs again plan files
  have hb : Balanced job.files (max 1 c.maxParallelism.val)
      (Search.start job c.maxParallelism cancelled c.searchBuffer).scan := balanced_start ..
  obtain ⟨more, hcalm, hend⟩ := (hb.search_run events).search_ends (by omega)
  refine ⟨more, hcalm, ?_⟩
  rw [searchAmid, Search.run, List.foldl_append]
  exact hend

theorem searchUnder_ends (events : List SearchEvent) : ∃ more, Calm more ∧
    (searchUnder c fs plan files cancelled (events ++ more)).phase = .ended :=
  searchAmid_ends events

/-- The search of readable files that nobody stops has sent everything at its end. -/
theorem searchUnder_complete (hfiles : ∀ p ∈ files, Readable fs p) (hcalm : Calm events)
    (hend : (searchUnder c fs plan files false events).phase = .ended) :
    (searchJob c fs plan files).Complete (searchUnder c fs plan files false events).items := by
  have hu : Untroubled (searchJob c fs plan files) (searchUnder c fs plan files false events) :=
    (untroubled_start ..).run (.refl fs) (sound_start ..) hcalm
  refine searchUnder_sound.complete hend hu.scan.opened fun f hf => ?_
  obtain ⟨p, hp, e, he, -⟩ := (hu.failed f hf).elim id id
  exact not_readable_iff.mpr ⟨e, he⟩ (hfiles p hp)

end Searches

theorem onward_inTurn : Onward (inTurn fs files) := by
  intro e he
  obtain ⟨⟨path, i⟩, -, he⟩ := List.mem_flatMap.mp he
  obtain ⟨es, hes, he⟩ := List.mem_flatten.mp he
  rw [List.eq_of_mem_replicate hes] at he
  rcases List.mem_pair.mp he with rfl | rfl
  · exact .inr ⟨i, rfl⟩
  · exact .inl rfl

theorem Onward.quiet {events : List ScanEvent} (h : Onward events) : Quiet events := by
  intro e he
  rcases h e he with rfl | ⟨i, rfl⟩ <;> simp

theorem calm_inTurn (job : SearchJob) : Calm job.inTurn :=
  List.forall_mem_append.mpr ⟨calm_scan onward_inTurn, calm_rounds _⟩

/-- Plans with the same conditions match the same number of lines. -/
theorem length_recordsIn_congr {p q : Plan} (hf : p.fields = q.fields) (hd : p.dates = q.dates)
    (fs : FileSystem) (files : List FilePath) :
    (recordsIn fs p files).length = (recordsIn fs q files).length := by
  have hlines : ∀ lines, (recordsOn p lines).length = (recordsOn q lines).length := by
    intro lines
    rw [← length_matching, ← length_matching, matching, matching, matchesLine_congr hf hd]
  simp only [recordsIn, List.length_flatMap, hlines]

/-- What a plan answers when nobody cancels it, whatever the order in which its tasks go on. -/
structure AlwaysAnswers (c : Config) (fs : FileSystem) (plan : Plan) (files : List FilePath)
    (a : Answer) : Prop where
  inTurn : run c fs plan files false = .ok a
  always : ∀ events r, Quiet events → answerUnder c fs plan files false events = some r → r = .ok a
  ends : ∀ events, ∃ more, Onward more ∧
    ∃ r, answerUnder c fs plan files false (events ++ more) = some r

/-- Over readable files a plan that gathers answers with all of it. -/
theorem alwaysAnswers (c : Config) (hfiles : ∀ p ∈ files, Readable fs p) (hk : plan.kind ≠ .search)
    (hg : Gathers plan) : AlwaysAnswers c fs plan files (completeAnswer fs plan files) := by
  have halways : ∀ events r, Quiet events → answerUnder c fs plan files false events = some r →
      r = .ok (completeAnswer fs plan files) := by
    intro events r hq hr
    cases r with
    | ok a => rw [(answerUnder_ok hk hg hr).2]
    | error f =>
      obtain ⟨p, hp, e, he, -⟩ := answerUnder_error hk hg hq hr
      exact absurd (hfiles p hp) (not_readable_iff.mpr ⟨e, he⟩)
  exact ⟨halways _ _ onward_inTurn.quiet (answerUnder_inTurn hk hg), halways, answerUnder_ends hk hg⟩

/-- A count of readable files that nobody cancels is the number of lines that match. -/
theorem count_of_readable (hfiles : ∀ p ∈ files, Readable fs p) (hk : plan.kind = .count)
    {events : List ScanEvent} (hq : Quiet events) {r : Except Failure Answer}
    (h : answerUnder c fs plan files false events = some r) :
    r = .ok (.count (recordsIn fs plan files).length) := by
  have hk' : plan.kind ≠ .search := by simp [hk]
  have hg : Gathers plan := fun h => by simp [hk] at h
  rw [(alwaysAnswers c hfiles hk' hg).always events r hq h, completeAnswer, hk]

/-- What a search has sent at its end: all records, and in order unless it need not. -/
def SendsAll (c : Config) (records : List String) (items : List Item) : Prop :=
  items.Perm (records.map .record) ∧ (c.skipSort = false → items = records.map .record)

/-- A search and a count that nobody cancels, whatever the order in which their tasks go
on: the search sends the records on the lines that match, file by file and line by line, and
the count is their number. -/
structure SearchesAll (c : Config) (fs : FileSystem) (plan counter : Plan) (files : List FilePath) :
    Prop where
  sends : ∀ events, Calm events → (searchUnder c fs plan files false events).phase = .ended →
    SendsAll c (recordsIn fs plan files) (searchUnder c fs plan files false events).items
  ends : ∀ events, ∃ more, Calm more ∧
    (searchUnder c fs plan files false (events ++ more)).phase = .ended
  inTurn : ∃ items, run c fs plan files false = .ok (.search items) ∧
    SendsAll c (recordsIn fs plan files) items
  counts : ∀ events r, Quiet events → answerUnder c fs counter files false events = some r →
    r = .ok (.count (recordsIn fs plan files).length)
  countsInTurn : run c fs counter files false = .ok (.count (recordsIn fs plan files).length)

theorem searchesAll (c : Config) {counter : Plan} (hfiles : ∀ p ∈ files, Readable fs p)
    (hsearch : plan.kind = .search) (hcount : counter.kind = .count)
    (hfields : counter.fields = plan.fields) (hdates : counter.dates = plan.dates) :
    SearchesAll c fs plan counter files := by
  have hsends : ∀ events, Calm events → (searchUnder c fs plan files false events).phase = .ended →
      SendsAll c (recordsIn fs plan files) (searchUnder c fs plan files false events).items := by
    intro events hcalm hend
    have hc := searchUnder_complete hfiles hcalm hend
    exact ⟨hc.perm, fun hs => hc.ordered (by simp [searchJob, rereadingJob, hs])⟩
  have hlength := length_recordsIn_congr hfields hdates fs files
  refine ⟨hsends, searchUnder_ends, ⟨_, by rw [run, hsearch], ?_⟩, ?_, ?_⟩
  · exact hsends _ (calm_inTurn _) (inTurn_ended ..)
  · intro events r hq hr
    rw [count_of_readable hfiles hcount hq hr, hlength]
  · have hturn : answerUnder c fs counter files false (inTurn fs files) = _ :=
      answerUnder_inTurn (by simp [hcount]) fun h => by simp [hcount] at h
    rw [count_of_readable hfiles hcount onward_inTurn.quiet hturn, hlength]

/-- The ordered search of readable files, whatever the order in which its tasks go on. -/
theorem ordered_search (hfiles : ∀ p ∈ files, Readable fs p)
    (hkind : plan.kind = .search) (hsort : c.skipSort = false) :
    (∀ events, Calm events → (searchUnder c fs plan files false events).phase = .ended →
      (searchUnder c fs plan files false events).items = (recordsIn fs plan files).map .record) ∧
    run c fs plan files false = .ok (.search ((recordsIn fs plan files).map .record)) := by
  have hsends : ∀ events, Calm events → (searchUnder c fs plan files false events).phase = .ended →
      (searchUnder c fs plan files false events).items = (recordsIn fs plan files).map .record :=
    fun events hcalm hend =>
      (searchUnder_complete hfiles hcalm hend).ordered (by simp [searchJob, rereadingJob, hsort])
  refine ⟨hsends, ?_⟩
  rw [run, hkind, hsends (searchJob c fs plan files).inTurn (calm_inTurn _) (inTurn_ended ..)]

/-- A store with one log of three lines, one of which is no record. -/
def threeLines : FileSystem where
  top := .directory [("log", .file (encode "\x7b\"n\":1\x7d\nn=3\n\x7b\"n\":3\x7d"))]
  working := []

def theLog : FilePath := ⟨"/log"⟩

/-- The records in which `n` is more than 2. -/
def large (kind : ResultKind) : Plan where
  sources := ["logs"]
  fields := [.on ⟨"n"⟩ (.compare .gt) (.int 2)]
  dates := []
  projections := []
  aggregation := none
  kind := kind

/-- An answer is whole or a failure. One that nobody cancels fails exactly when a file
cannot be read, and it names such a file. -/
structure AnswersWhole (c : Config) (fs : FileSystem) (plan : Plan) (files : List FilePath)
    (cancelled : Bool) : Prop where
  whole : ∀ events a, answerUnder c fs plan files cancelled events = some (.ok a) →
    (∀ p ∈ files, Readable fs p) ∧ a = completeAnswer fs plan files
  fails : cancelled = false → ∀ events r, Quiet events →
    answerUnder c fs plan files cancelled events = some r →
      ((∃ f, r = .error f) ↔ ∃ p ∈ files, ¬ Readable fs p) ∧ ∀ f, r = .error f → Blames fs files f
  ends : ∀ events, ∃ more, Onward more ∧
    ∃ r, answerUnder c fs plan files cancelled (events ++ more) = some r
  inTurn : answerUnder c fs plan files cancelled (inTurn fs files) =
    some (run c fs plan files cancelled)

/-- A stream carries one failure at most, as its last item; if it ends without one, and
nobody has closed it, it has carried every record. In order, a file that cannot be read
leaves nothing but the failure. One that nobody stops fails only for a file that cannot be
read, the first time or again. -/
structure StreamsWhole (c : Config) (fs again : FileSystem) (plan : Plan) (files : List FilePath)
    (cancelled : Bool) (events : List SearchEvent) (s : Search) : Prop where
  oneFailure : OneFailure s.items
  whole : s.phase = .ended → s.scan.channel.closed = false → (∀ f, .failure f ∉ s.items) →
    (∀ p ∈ files, Readable fs p) ∧ SendsAll c (recordsIn fs plan files) s.items
  withheld : c.skipSort = false → (∃ p ∈ files, ¬ Readable fs p) →
    (s.items = [] ∨ ∃ f, s.items = [.failure f]) ∧
      (s.phase = .ended → s.scan.channel.closed = false → ∃ f, s.items = [.failure f])
  fails : cancelled = false → Calm events → ∀ f, .failure f ∈ s.items →
    Blames fs files f ∨ Blames again files f
  ends : ∃ more, Calm more ∧
    (searchAmid c fs again plan files cancelled (events ++ more)).phase = .ended

theorem answersWhole (hk : plan.kind ≠ .search) (hg : Gathers plan) :
    AnswersWhole c fs plan files cancelled where
  whole events a h := answerUnder_ok hk hg h
  ends := answerUnder_ends hk hg
  inTurn := answerUnder_inTurn hk hg
  fails hc events r hq h := by
    subst hc
    refine ⟨⟨?_, ?_⟩, ?_⟩
    · rintro ⟨f, rfl⟩
      obtain ⟨p, hp, e, he, -⟩ := answerUnder_error hk hg hq h
      exact ⟨p, hp, not_readable_iff.mpr ⟨e, he⟩⟩
    · rintro ⟨p, hp, hn⟩
      cases r with
      | error f => exact ⟨f, rfl⟩
      | ok a => exact absurd ((answerUnder_ok hk hg h).1 p hp) hn
    · rintro f rfl
      exact answerUnder_error hk hg hq h

theorem streamsWhole {again : FileSystem} (hu : Unchanged fs again) (events : List SearchEvent) :
    StreamsWhole c fs again plan files cancelled events
      (searchAmid c fs again plan files cancelled events) where
  oneFailure := (searchAmid_sound hu).oneFailure
  whole hend hopen hok := by
    have hc := (searchAmid_sound hu).complete hend hopen hok
    exact ⟨hc.readable, hc.perm, fun hs => hc.ordered (by simp [rereadingJob, hs])⟩
  withheld hs hbad := by
    have hsound : Sound (rereadingJob c fs again plan files)
        (searchAmid c fs again plan files cancelled events) := searchAmid_sound hu
    rcases hsound.withheld (by simp [rereadingJob, hs]) hbad with ⟨hnil, hclosed⟩ | ⟨f, hf⟩
    · refine ⟨.inl hnil, fun hend hopen => ?_⟩
      rw [hclosed hend] at hopen
      cases hopen
    · exact ⟨.inr ⟨f, hf⟩, fun _ _ => ⟨f, hf⟩⟩
  fails hc hcalm := by
    subst hc
    exact (Untroubled.run hu (untroubled_start ..) (sound_start ..) hcalm).failed
  ends := searchAmid_ends events

end LogQuery.Engine
