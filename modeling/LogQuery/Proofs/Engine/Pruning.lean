import LogQuery.Proofs.Engine.Completeness
import LogQuery.Proofs.Store.Pruning

/-!
# Answers without the files that are left out

In a store whose logs stick to their days, no record of a file that conditions on days
leave out can match. So a plan answers from the files it reads what it would answer from
all log files of its sources.
-/

namespace LogQuery.Engine

open LogQuery.Text LogQuery.Store LogQuery.Log LogQuery.Record LogQuery.Predicate LogQuery.Calendar

variable {c : Config} {fs : FileSystem} {plan : Plan} {files : List FilePath} {root : FilePath}

/-! ## Lines that cannot match -/

section Lines

variable {lines : List (Nat × Bytes)}

theorem recordsOn_of_no_match (h : ∀ l ∈ lines, plan.matchLine? l.2 = none) :
    recordsOn plan lines = [] :=
  List.filterMap_eq_nil_iff.mpr fun l hl => by rw [h l hl, Option.map_none]

theorem keysOn_of_no_match (path : Path) (h : ∀ l ∈ lines, plan.matchLine? l.2 = none) :
    keysOn plan path lines = [] :=
  List.filterMap_eq_nil_iff.mpr fun l hl => by rw [keyOf?, h l hl, Option.bind_none]

/-- A record of a day that the conditions do not accept does not match. -/
theorem matchLine?_of_rejected {line : Bytes} {d : Day}
    (hdates : ∀ c ∈ plan.dates, c.dateOnly = true) (hrejected : allAcceptDay plan.dates d = false)
    (hday : ∀ record, Record.ofLine? line = some record →
      (recordInstant? record).map Instant.day = some d) : plan.matchLine? line = none := by
  rw [Plan.matchLine?, Option.filter_eq_none_iff]
  intro record hrecord haccepts
  obtain ⟨t, ht, htd⟩ := Option.map_eq_some_iff.mp (hday record hrecord)
  have hsome : plan.dates ≠ [] := by
    intro hnil
    rw [hnil] at hrejected
    cases hrejected
  have hholds : datesHold plan.dates record = false := by
    rw [datesHold, ht, Option.all_some, allAcceptInstant_eq hdates, htd, hrejected]
    simpa using hsome
  rw [Plan.accepts, hholds, Bool.and_false] at haccepts
  cases haccepts

end Lines

/-- The bytes at the path of an entry are those of the entry. -/
theorem eq_of_bytes_join {p : FilePath} {name : String} {content : Content} {bytes : Bytes}
    (h : fs.top.IsTree) (hfile : fs.Holds p name (.file content))
    (hbytes : fs.bytes? (p.join name) = some bytes) : bytes = content.bytes := by
  unfold FileSystem.bytes? at hbytes
  split at hbytes
  next stored hnode =>
    have hfit := (FileSystem.node_eq_ok.mp hnode).2.2.1
    rw [hfile.node_join h hfit] at hnode
    cases hnode
    exact (Option.some.inj hbytes).symm
  next => cases hbytes

/-- Nothing in a file that is left out matches. -/
theorem no_match_of_left_out (h : fs.top.IsTree) (hdates : ∀ c ∈ plan.dates, c.dateOnly = true)
    (hdated : ∀ source ∈ fs.sourcesOfPlan root plan, fs.Dated root source) {p : FilePath}
    (hp : p ∈ fs.filesOfPlan root plan.undated) (hleft : p.keptBy plan.dates = false) :
    ∀ l ∈ linesIn fs p, plan.matchLine? l.2 = none := by
  obtain ⟨source, hsource, day, name, hlog, rfl⟩ := FileSystem.isLogFile_of_mem hp
  obtain ⟨d, hd, -⟩ := hlog.accepts_day
  have hrejected : allAcceptDay plan.dates d = false := by
    rwa [FilePath.keptBy, FileSystem.day?_logFile h hlog, hd, Option.any_some] at hleft
  obtain ⟨content, hfile⟩ := hlog.file
  intro l hl
  obtain ⟨bytes, hbytes, hl⟩ := exists_bytes_of_mem_linesIn hl
  rw [eq_of_bytes_join h hfile hbytes] at hl
  refine matchLine?_of_rejected hdates hrejected ?_
  exact (hdated source hsource).recorded day name d content hlog hd hfile l hl

/-- The files that a plan reads hold all that it matches in the files of its sources. -/
structure Suffices (fs : FileSystem) (plan : Plan) (files all : List FilePath) : Prop where
  sublist : files.Sublist all
  records : recordsIn fs plan files = recordsIn fs plan all
  keys : ∀ path, keysIn fs plan path files = keysIn fs plan path all

theorem suffices_filesOfPlan (h : fs.top.IsTree) (hdates : ∀ c ∈ plan.dates, c.dateOnly = true)
    (hdated : ∀ source ∈ fs.sourcesOfPlan root plan, fs.Dated root source) :
    Suffices fs plan (fs.filesOfPlan root plan) (fs.filesOfPlan root plan.undated) := by
  have hfilter := FileSystem.filesOfPlan_eq_filter h hdates hdated
  constructor
  · rw [hfilter]
    exact List.filter_sublist
  · rw [hfilter]
    refine flatMap_filter_eq fun p hp hleft => recordsOn_of_no_match ?_
    exact no_match_of_left_out h hdates hdated hp hleft
  · intro path
    rw [hfilter]
    refine flatMap_filter_eq fun p hp hleft => keysOn_of_no_match path ?_
    exact no_match_of_left_out h hdates hdated hp hleft

/-! ## Answers -/

section Answers

variable {all : List FilePath} {cancelled : Bool}

theorem Suffices.completeAnswer_eq (h : Suffices fs plan files all) :
    completeAnswer fs plan files = completeAnswer fs plan all :=
  completeAnswer_congr h.records h.keys

/-- A plan that gathers the values of no field answers before it reads a file. -/
theorem answerUnder_of_not_gathers (hg : ¬ Gathers plan) (events : List ScanEvent) :
    answerUnder c fs plan files cancelled events = some (.ok (completeAnswer fs plan files)) := by
  obtain ⟨hkind, hnone⟩ := Classical.not_imp.mp hg
  have hpath : plan.aggregation = none := by
    cases hp : plan.aggregation with
    | none => rfl
    | some path => exact absurd ⟨path, hp⟩ hnone
  rcases hkind with hkind | hkind <;>
    simp [answerUnder, valuesUnder, completeAnswer, countsIn, hkind, hpath, Except.map]

theorem complete_of_answer (hk : plan.kind ≠ .search) {events : List ScanEvent} {a : Answer}
    (h : answerUnder c fs plan files cancelled events = some (.ok a)) :
    (Gathers plan → ∀ p ∈ files, Readable fs p) ∧ a = completeAnswer fs plan files := by
  by_cases hg : Gathers plan
  · obtain ⟨hread, ha⟩ := answerUnder_ok hk hg h
    exact ⟨fun _ => hread, ha⟩
  · rw [answerUnder_of_not_gathers hg] at h
    cases h
    exact ⟨fun hg' => absurd hg' hg, rfl⟩

theorem alwaysAnswers_complete (c : Config) (hk : plan.kind ≠ .search)
    (hread : Gathers plan → ∀ p ∈ files, Readable fs p) :
    AlwaysAnswers c fs plan files (completeAnswer fs plan files) := by
  by_cases hg : Gathers plan
  · exact alwaysAnswers c (hread hg) hk hg
  · have hanswer : ∀ events, answerUnder c fs plan files false events =
        some (.ok (completeAnswer fs plan files)) := answerUnder_of_not_gathers hg
    constructor
    · rw [run]
      cases hkind : plan.kind with
      | search => exact absurd hkind hk
      | _ =>
        rw [hanswer]
        rfl
    · intro events r _ hr
      rw [hanswer] at hr
      exact (Option.some.inj hr).symm
    · intro events
      refine ⟨[], ?_, _, hanswer _⟩
      intro e he
      cases he

/-- What an ordered search sends when nobody cancels it, whatever the order in which its
tasks go on. -/
structure AlwaysSends (c : Config) (fs : FileSystem) (plan : Plan) (files : List FilePath)
    (items : List Item) : Prop where
  inTurn : run c fs plan files false = .ok (.search items)
  always : ∀ events, Calm events → (searchUnder c fs plan files false events).phase = .ended →
    (searchUnder c fs plan files false events).items = items
  ends : ∀ events, ∃ more, Calm more ∧
    (searchUnder c fs plan files false (events ++ more)).phase = .ended

theorem alwaysSends (hfiles : ∀ p ∈ files, Readable fs p) (hk : plan.kind = .search)
    (hsort : c.skipSort = false) :
    AlwaysSends c fs plan files ((recordsIn fs plan files).map .record) := by
  obtain ⟨hsends, hrun⟩ := ordered_search hfiles hk hsort
  exact ⟨hrun, hsends, searchUnder_ends⟩

/-- Some files are as good as all: what a plan answers or sends from all of them, if it does
not fail, it always does from these. If all can be read, it fails with neither. -/
structure AsGoodAs (c : Config) (fs : FileSystem) (plan : Plan) (files all : List FilePath) :
    Prop where
  answers : plan.kind ≠ .search → ∀ cancelled events a,
    answerUnder c fs plan all cancelled events = some (.ok a) → AlwaysAnswers c fs plan files a
  alike : plan.kind ≠ .search → (∀ p ∈ all, Readable fs p) →
    ∃ a, AlwaysAnswers c fs plan all a ∧ AlwaysAnswers c fs plan files a
  sends : plan.kind = .search → c.skipSort = false → ∀ cancelled events,
    let s := searchUnder c fs plan all cancelled events
    s.phase = .ended → s.scan.channel.closed = false → (∀ f, .failure f ∉ s.items) →
      AlwaysSends c fs plan files s.items
  sendsAlike : plan.kind = .search → c.skipSort = false → (∀ p ∈ all, Readable fs p) →
    ∃ items, AlwaysSends c fs plan all items ∧ AlwaysSends c fs plan files items

theorem Suffices.asGoodAs (h : Suffices fs plan files all) : AsGoodAs c fs plan files all where
  answers hk cancelled events a ha := by
    obtain ⟨hread, rfl⟩ := complete_of_answer hk ha
    rw [← h.completeAnswer_eq]
    exact alwaysAnswers_complete c hk fun hg p hp => hread hg p (h.sublist.subset hp)
  alike hk hread := by
    refine ⟨_, alwaysAnswers_complete c hk fun _ => hread, ?_⟩
    rw [← h.completeAnswer_eq]
    exact alwaysAnswers_complete c hk fun _ p hp => hread p (h.sublist.subset hp)
  sends := by
    intro hk hsort cancelled events s hend hopen hok
    obtain ⟨hread, -, hordered⟩ := (streamsWhole (.refl fs) events).whole hend hopen hok
    have hitems : s.items = (recordsIn fs plan files).map .record := by
      rw [h.records]
      exact hordered hsort
    rw [hitems]
    exact alwaysSends (fun p hp => hread p (h.sublist.subset hp)) hk hsort
  sendsAlike hk hsort hread := by
    refine ⟨_, alwaysSends hread hk hsort, ?_⟩
    rw [← h.records]
    exact alwaysSends (fun p hp => hread p (h.sublist.subset hp)) hk hsort

end Answers

/-- Where logs stick to their days, conditions on days leave out no file that is needed. -/
theorem pruned_files_suffice (c : Config) (h : fs.top.IsTree)
    (hdates : ∀ c ∈ plan.dates, c.dateOnly = true)
    (hdated : ∀ source ∈ fs.sourcesOfPlan root plan, fs.Dated root source) :
    (fs.filesOfPlan root plan).Sublist (fs.filesOfPlan root plan.undated) ∧
      AsGoodAs c fs plan (fs.filesOfPlan root plan) (fs.filesOfPlan root plan.undated) := by
  have hsuffices := suffices_filesOfPlan h hdates hdated
  exact ⟨hsuffices.sublist, hsuffices.asGoodAs⟩

/-- Whether logs stick to their days can be told by reading them. -/
theorem dated_of_lines {source : String} (h : fs.top.IsTree)
    (hfit : ∀ names ∈ fs.logNames (root.join source) [],
      (((root.join source).join names.1).join names.2).text.utf8ByteSize < FileSystem.pathLimit)
    (hnames : ∀ names ∈ fs.logNames (root.join source) [], ∀ d ∈ day? names.1.toList,
      ∀ t ∈ startOf? names.2, t.day = d)
    (hlines : ∀ names ∈ fs.logNames (root.join source) [], ∀ d ∈ day? names.1.toList,
      ∀ bytes ∈ fs.bytes? (((root.join source).join names.1).join names.2),
        ∀ line ∈ numberedLines bytes, ∀ record ∈ Record.ofLine? line.2,
          (recordInstant? record).map Instant.day = some d) :
    fs.Dated root source := by
  constructor
  · intro day name d t hlog hd ht
    have hmem : (day, name) ∈ fs.logNames (root.join source) [] := FileSystem.mem_logNames.mpr hlog
    exact hnames _ hmem d (Option.mem_def.mpr hd) t (Option.mem_def.mpr ht)
  · intro day name d content hlog hd hfile line hline record hrecord
    have hmem : (day, name) ∈ fs.logNames (root.join source) [] := FileSystem.mem_logNames.mpr hlog
    have hfit := hfit _ hmem
    dsimp only at hfit
    have hbytes : fs.bytes? (((root.join source).join day).join name) = some content.bytes := by
      rw [FileSystem.bytes?, hfile.node_join h hfit]
    have hlines := hlines _ hmem d (Option.mem_def.mpr hd) _ (Option.mem_def.mpr hbytes)
    exact hlines line hline record (Option.mem_def.mpr hrecord)

/-- Logs of two programs, each of one day. -/
def twoPrograms : FileSystem where
  top := .directory [
    ("app", .directory [("2020-01-01", .directory [("2020-01-01T08-00-00.log",
      .file (encode "\x7b\"time\":\"2020-01-01T08:00:01\",\"n\":1\x7d\n"))])]),
    ("web", .directory [("2020-01-02", .directory [("2020-01-02T08-00-00.log",
      .file (encode "\x7b\"time\":\"2020-01-02T08:00:01\",\"n\":2\x7d\nn=3\n"))])])]
  working := []

/-- The records from the second day on. -/
def fromSecondDay : Plan where
  sources := ["app", "web"]
  fields := []
  dates := [⟨"2020-01-02", (⟨2020, 1, 2⟩ : Civil).toDay.midnight, .compare .ge, true, .first⟩]
  projections := []
  aggregation := none
  kind := .count

theorem dated_twoPrograms : ∀ source ∈ ["app", "web"], twoPrograms.Dated ⟨"/"⟩ source := by
  intro source hsource
  have h : twoPrograms.top.IsTree := by decide +kernel
  rcases List.mem_pair.mp hsource with rfl | rfl
  · exact dated_of_lines h (by decide +kernel) (by decide +kernel) (by decide +kernel)
  · exact dated_of_lines h (by decide +kernel) (by decide +kernel) (by decide +kernel)

/-- The log of the first day is left out. -/
theorem fromSecondDay_answers :
    let files := [⟨"/web/2020-01-02/2020-01-02T08-00-00.log"⟩]
    let all := ⟨"/app/2020-01-01/2020-01-01T08-00-00.log"⟩ :: files
    twoPrograms.filesOfPlan ⟨"/"⟩ fromSecondDay = files ∧
    twoPrograms.filesOfPlan ⟨"/"⟩ fromSecondDay.undated = all ∧
    AsGoodAs ⟨⟨"/"⟩, 1, false, 1⟩ twoPrograms fromSecondDay files all := by
  intro files all
  have hfiles : twoPrograms.filesOfPlan ⟨"/"⟩ fromSecondDay = files := by decide +kernel
  have hall : twoPrograms.filesOfPlan ⟨"/"⟩ fromSecondDay.undated = all := by decide +kernel
  have h : twoPrograms.top.IsTree := by decide +kernel
  have hdates : ∀ c ∈ fromSecondDay.dates, c.dateOnly = true := by decide
  have hsources : twoPrograms.sourcesOfPlan ⟨"/"⟩ fromSecondDay = ["app", "web"] := by decide +kernel
  obtain ⟨-, hgood⟩ := pruned_files_suffice ⟨⟨"/"⟩, 1, false, 1⟩ h hdates
    (hsources ▸ dated_twoPrograms)
  rw [hfiles, hall] at hgood
  exact ⟨hfiles, hall, hgood⟩

end LogQuery.Engine
