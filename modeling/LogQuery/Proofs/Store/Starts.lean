import LogQuery.Proofs.Predicate.Dates
import LogQuery.Proofs.Store.Pruning

/-!
# Files by their start

Conditions on the date are put to the days of directories first and then to the starts of
files. The first check is the coarser one: whatever instant is accepted, its day is. So where
every log file was started on the day of its directory, only the starts of files decide, and
leaving out directories costs no file, also under conditions that have a time.
-/

namespace LogQuery.Store

open LogQuery.Predicate LogQuery.Calendar

/-- When a log file was started, as its name tells. -/
def FilePath.start? (p : FilePath) : Option Instant := p.components.getLast?.bind startOf?

/-- Whether conditions on the date accept the start of a log file. -/
def FilePath.startedWithin (dates : List DateCondition) (p : FilePath) : Bool :=
  p.start?.any (allAcceptInstant dates)

namespace FileSystem

variable {fs : FileSystem} {root : FilePath} {source : String} {dates : List DateCondition}

/-- Every log file of a source is named for an instant of the day of its directory. -/
def StartedOnDay (fs : FileSystem) (root : FilePath) (source : String) : Prop :=
  ∀ day name d t, fs.IsLogFile root source [] day name →
    day? day.toList = some d → startOf? name = some t → t.day = d

theorem startedOnDay_iff : fs.StartedOnDay root source ↔
    ∀ names ∈ fs.logNames (root.join source) [], ∀ d ∈ day? names.1.toList,
      ∀ t ∈ startOf? names.2, t.day = d := by
  constructor
  · intro h names hnames d hd t ht
    exact h names.1 names.2 d t (mem_logNames.mp hnames) hd ht
  · intro h day name d t hlog hd ht
    exact h (day, name) (mem_logNames.mpr hlog) d hd t ht

instance (fs : FileSystem) (root : FilePath) (source : String) :
    Decidable (fs.StartedOnDay root source) := decidable_of_iff _ startedOnDay_iff.symm

theorem start?_logFile {day name : String} (h : fs.top.IsTree)
    (hn : fs.IsLogFile root source dates day name) :
    (((root.join source).join day).join name).start? = startOf? name := by
  rw [FilePath.start?, components_logFile h hn, List.getLast?_concat]
  rfl

theorem fileNames_eq_filter (fs : FileSystem) (p : FilePath) (dates : List DateCondition) :
    fs.fileNames p dates =
      (fs.fileNames p []).filter fun name => (startOf? name).any (allAcceptInstant dates) := by
  rw [fileNames, fileNames, List.filter_filter]
  refine List.filter_congr fun name _ => ?_
  cases startOf? name <;> simp [allAcceptInstant]

/-- On a day that is left out no file would be accepted. -/
theorem fileNames_eq_nil {day : String} (hstarted : fs.StartedOnDay root source)
    (hdir : day ∈ fs.dayNames (root.join source) [])
    (hleft : (day? day.toList).any (allAcceptDay dates) = false) :
    fs.fileNames ((root.join source).join day) dates = [] := by
  rw [fileNames_eq_filter, List.filter_eq_nil_iff]
  intro name hname haccepted
  obtain ⟨t, ht, haccepts⟩ := (Option.any_eq_true ..).mp haccepted
  have hlog := isLogFile_nil hdir hname
  obtain ⟨d, hd, -⟩ := hlog.accepts_day
  have hday : t.day = d := hstarted day name d t hlog hd ht
  have hkept : allAcceptDay dates d = true := hday ▸ allAcceptDay_of_allAcceptInstant haccepts
  rw [hd, Option.any_some, hkept] at hleft
  cases hleft

theorem logNames_eq_filter (hstarted : fs.StartedOnDay root source) :
    fs.logNames (root.join source) dates = (fs.logNames (root.join source) []).filter
      fun names => (startOf? names.2).any (allAcceptInstant dates) := by
  rw [logNames, logNames, dayNames_eq, List.filter_flatMap]
  refine Eq.trans (flatMap_filter_eq fun day hdir hleft => ?_) (List.flatMap_congr fun day _ => ?_)
  · rw [fileNames_eq_nil hstarted hdir hleft, List.map_nil]
  · rw [fileNames_eq_filter, List.filter_map]
    rfl

/-- The check of directories hides no file: the day of an accepted instant is accepted, and
where log files were started on the days of their directories, the files of a source are those
of all its log files whose start is accepted, in the same order. -/
theorem day_check_hides_nothing :
    (∀ (dates : List DateCondition) (t : Instant),
      allAcceptInstant dates t = true → allAcceptDay dates t.day = true) ∧
    ∀ (fs : FileSystem) (root : FilePath) (source : String) (dates : List DateCondition),
      fs.top.IsTree → fs.StartedOnDay root source →
        fs.filesOfSource root source dates =
          (fs.filesOfSource root source []).filter (FilePath.startedWithin dates) := by
  refine ⟨fun _ _ => allAcceptDay_of_allAcceptInstant, fun fs root source dates h hstarted => ?_⟩
  rw [filesOfSource_eq, filesOfSource_eq, logNames_eq_filter hstarted, List.filter_map]
  refine congrArg _ (List.filter_congr fun names hnames => ?_)
  rw [Function.comp_apply, FilePath.startedWithin, start?_logFile h (mem_logNames.mp hnames)]

/-- The log of an evening, in a directory with another one. -/
def eveningLog : FileSystem where
  top := .directory [("logs", .directory [("web", .directory [("2020-01-01", .directory
    [("2020-01-01T20-00-00.log", .file ⟨[], none⟩), ("old", .directory [])])])])]
  working := []

/-- After noon of a day, and on that day at most: a time and a date. -/
def afterNoon : List DateCondition :=
  [⟨"2020-01-01T12:00:00", (⟨2020, 1, 1⟩ : Civil).toDay.at 43200 0, .compare .gt, false, .first⟩,
    ⟨"2020-01-01", (⟨2020, 1, 1⟩ : Civil).toDay.at DateCondition.endOfDay 0, .compare .le, true, .last⟩]

/-- The day on which the time of a condition falls is searched. -/
theorem day_check_hides_nothing_evening : eveningLog.top.IsTree ∧
    eveningLog.StartedOnDay ⟨"/logs"⟩ "web" ∧
    (eveningLog.filesOfSource ⟨"/logs"⟩ "web" []).filter (FilePath.startedWithin afterNoon) =
      [⟨"/logs/web/2020-01-01/2020-01-01T20-00-00.log"⟩] ∧
    eveningLog.filesOfSource ⟨"/logs"⟩ "web" afterNoon =
      [⟨"/logs/web/2020-01-01/2020-01-01T20-00-00.log"⟩] ∧
    ∃ t, startOf? "2020-01-01T20-00-00.log" = some t ∧
      allAcceptInstant afterNoon t = true ∧ allAcceptDay afterNoon t.day = true := by
  have h : eveningLog.top.IsTree := by decide +kernel
  have hstarted : eveningLog.StartedOnDay ⟨"/logs"⟩ "web" := by decide +kernel
  have hfiltered : (eveningLog.filesOfSource ⟨"/logs"⟩ "web" []).filter
      (FilePath.startedWithin afterNoon) = [⟨"/logs/web/2020-01-01/2020-01-01T20-00-00.log"⟩] := by
    decide +kernel
  have haccepts : allAcceptInstant afterNoon ⟨1577908800, 0⟩ = true := by decide +kernel
  obtain ⟨hday, hfiles⟩ := day_check_hides_nothing
  exact ⟨h, hstarted, hfiltered, (hfiles _ _ _ _ h hstarted).trans hfiltered, _, by decide +kernel,
    haccepts, hday _ _ haccepts⟩

end FileSystem

end LogQuery.Store
