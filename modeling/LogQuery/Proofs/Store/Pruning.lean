import LogQuery.Log.Lines
import LogQuery.Proofs.Store.Sources
import LogQuery.Record.Line

/-!
# Files that conditions on the date leave out

Conditions that name whole days accept all instants of a day or none. Where every log
file is named for an instant of the day of its directory, such conditions leave out the
files of whole days, and a plan reads the others as it would without them.
-/

namespace LogQuery

open LogQuery.Predicate LogQuery.Calendar LogQuery.Store

namespace Predicate

theorem DateCondition.acceptsInstant_eq {c : DateCondition} (h : c.dateOnly = true) (t : Instant) :
    c.acceptsInstant t = c.acceptsDay t.day := by
  rw [acceptsInstant, acceptsDay, if_pos h, if_pos h]

/-- Conditions on days judge an instant by its day. -/
theorem allAcceptInstant_eq {dates : List DateCondition} (h : ∀ c ∈ dates, c.dateOnly = true)
    (t : Instant) : allAcceptInstant dates t = allAcceptDay dates t.day := by
  rw [Bool.eq_iff_iff, allAcceptInstant, allAcceptDay, List.all_eq_true, List.all_eq_true]
  refine forall₂_congr fun c hc => ?_
  rw [DateCondition.acceptsInstant_eq (h c hc)]

end Predicate

/-- A plan without its conditions on the date. -/
def Plan.undated (plan : Plan) : Plan := { plan with dates := [] }

namespace Store

/-- The day of the directory that holds a file. -/
def FilePath.day? (p : FilePath) : Option Day :=
  p.components.dropLast.getLast?.bind fun name => Calendar.day? name.toList

/-- Whether conditions on the date accept the day of the directory that holds a file. -/
def FilePath.keptBy (dates : List DateCondition) (p : FilePath) : Bool :=
  p.day?.any (allAcceptDay dates)

theorem FilePath.keptBy_congr (dates : List DateCondition) {p q : FilePath}
    (h : p.same q = true) : p.keptBy dates = q.keptBy dates := by
  have hcomponents : p.components = q.components := eq_of_beq (Bool.and_eq_true_iff.mp h).2
  rw [keptBy, keptBy, day?, day?, hcomponents]

/-- What is left out may as well be there if it gives nothing. -/
theorem flatMap_filter_eq {α β : Type} {keep : α → Bool} {f : α → List β} {xs : List α}
    (h : ∀ x ∈ xs, keep x = false → f x = []) : (xs.filter keep).flatMap f = xs.flatMap f := by
  induction xs with
  | nil => rfl
  | cons x xs ih =>
    obtain ⟨hx, hxs⟩ := List.forall_mem_cons.mp h
    cases hkeep : keep x with
    | true => rw [List.filter_cons_of_pos hkeep, List.flatMap_cons, List.flatMap_cons, ih hxs]
    | false =>
      rw [List.filter_cons_of_neg (by simp [hkeep]), List.flatMap_cons, hx hkeep, ih hxs]
      rfl

/-- Leaving out paths with all that are the same leaves the first of the others. -/
theorem filter_eraseDupsBy {keep : FilePath → Bool}
    (hkeep : ∀ p q : FilePath, p.same q = true → keep p = keep q) :
    ∀ ps : List FilePath, (ps.eraseDupsBy FilePath.same).filter keep =
      (ps.filter keep).eraseDupsBy FilePath.same
  | [] => rfl
  | p :: ps => by
    -- the induction is on the length: the paths that are not the same as the first one
    have ih := filter_eraseDupsBy hkeep (ps.filter fun q => q.same p = false)
    rw [List.eraseDupsBy_cons]
    cases hp : keep p with
    | true =>
      rw [List.filter_cons_of_pos hp, List.filter_cons_of_pos hp, List.eraseDupsBy_cons, ih,
        List.filter_filter, List.filter_filter]
      simp only [Bool.and_comm]
    | false =>
      have hpass : ∀ q ∈ ps, (keep q && decide (q.same p = false)) = keep q := by
        intro q _
        cases hsame : q.same p with
        | false => exact Bool.and_true _
        | true => rw [hkeep q p hsame, hp, Bool.false_and]
      rw [List.filter_cons_of_neg (by simp [hp]), List.filter_cons_of_neg (by simp [hp]), ih,
        List.filter_filter, List.filter_congr hpass]
termination_by ps => ps.length
decreasing_by exact Nat.lt_succ_of_le (List.length_filter_le _ _)

namespace FileSystem

variable {fs : FileSystem} {root : FilePath} {source : String} {dates : List DateCondition}

/-- The log files of a source stick to the day of their directory: their names do, and so
does the time of every record in them. -/
structure Dated (fs : FileSystem) (root : FilePath) (source : String) : Prop where
  started : ∀ day name d t, fs.IsLogFile root source [] day name →
    day? day.toList = some d → startOf? name = some t → t.day = d
  recorded : ∀ day name d content, fs.IsLogFile root source [] day name →
    day? day.toList = some d → fs.Holds ((root.join source).join day) name (.file content) →
      ∀ line ∈ Log.numberedLines content.bytes, ∀ record, Record.ofLine? line.2 = some record →
        (recordInstant? record).map Instant.day = some d

theorem day?_logFile {day name : String} (h : fs.top.IsTree)
    (hn : fs.IsLogFile root source dates day name) :
    (((root.join source).join day).join name).day? = day? day.toList := by
  rw [FilePath.day?, components_logFile h hn, List.dropLast_concat, List.getLast?_concat]
  rfl

theorem isLogFile_nil {day name : String} (hdir : day ∈ fs.dayNames (root.join source) [])
    (hfile : name ∈ fs.fileNames ((root.join source).join day) []) :
    fs.IsLogFile root source [] day name := by
  refine mem_logNames.mp (List.mem_flatMap.mpr ⟨day, hdir, ?_⟩)
  exact List.mem_map_of_mem hfile

theorem dayNames_eq (fs : FileSystem) (p : FilePath) (dates : List DateCondition) :
    fs.dayNames p dates =
      (fs.dayNames p []).filter fun name => (day? name.toList).any (allAcceptDay dates) := by
  rw [dayNames, dayNames, List.filter_filter]
  refine List.filter_congr fun name _ => ?_
  cases day? name.toList <;> simp [allAcceptDay]

/-- On a day that is kept no file is left out. -/
theorem fileNames_eq {day : String} {d : Day} (hdates : ∀ c ∈ dates, c.dateOnly = true)
    (hdated : fs.Dated root source) (hdir : day ∈ fs.dayNames (root.join source) [])
    (hd : day? day.toList = some d) (hkept : allAcceptDay dates d = true) :
    fs.fileNames ((root.join source).join day) dates =
      fs.fileNames ((root.join source).join day) [] := by
  refine List.filter_congr fun name hname => ?_
  cases hstart : startOf? name with
  | none => rfl
  | some t =>
    have hmem : name ∈ fs.fileNames ((root.join source).join day) [] := by
      refine List.mem_filter.mpr ⟨hname, ?_⟩
      simp [hstart, allAcceptInstant]
    have ht : t.day = d := hdated.started day name d t (isLogFile_nil hdir hmem) hd hstart
    have haccepts : allAcceptInstant dates t = true := by
      rw [allAcceptInstant_eq hdates, ht, hkept]
    rw [Option.any_some, Option.any_some, haccepts]
    rfl

theorem logNames_eq (hdates : ∀ c ∈ dates, c.dateOnly = true) (hdated : fs.Dated root source) :
    fs.logNames (root.join source) dates = (fs.logNames (root.join source) []).filter
      fun names => (day? names.1.toList).any (allAcceptDay dates) := by
  rw [logNames, logNames, dayNames_eq, List.filter_flatMap]
  refine Eq.trans (List.flatMap_congr fun day hmem => ?_) (flatMap_filter_eq ?_)
  · obtain ⟨hdir, hkept⟩ := List.mem_filter.mp hmem
    obtain ⟨d, hd, haccepts⟩ := (Option.any_eq_true ..).mp hkept
    rw [fileNames_eq hdates hdated hdir hd haccepts, List.filter_map]
    simp [Function.comp_def, hkept]
  · intro day _ hleft
    rw [List.filter_map]
    simp [Function.comp_def, hleft]

/-- The files of a source are those of the days that are kept. -/
theorem filesOfSource_eq_filter (h : fs.top.IsTree) (hdates : ∀ c ∈ dates, c.dateOnly = true)
    (hdated : fs.Dated root source) : fs.filesOfSource root source dates =
      (fs.filesOfSource root source []).filter (FilePath.keptBy dates) := by
  rw [filesOfSource_eq, filesOfSource_eq, logNames_eq hdates hdated, List.filter_map]
  congr 1
  refine List.filter_congr fun names hnames => ?_
  have hday := day?_logFile h (mem_logNames.mp hnames)
  rw [Function.comp_apply, FilePath.keptBy, hday]

/-- The sources that a plan names, as often as it does. -/
def sourcesNamed (fs : FileSystem) (root : FilePath) (plan : Plan) : List String :=
  plan.sources.flatMap fun s => if s == allSources then fs.sources root else [s]

/-- Conditions on days leave the files of the days they keep, in their order. -/
theorem filesOfPlan_eq_filter {plan : Plan} (h : fs.top.IsTree)
    (hdates : ∀ c ∈ plan.dates, c.dateOnly = true)
    (hdated : ∀ source ∈ fs.sourcesOfPlan root plan, fs.Dated root source) :
    fs.filesOfPlan root plan =
      (fs.filesOfPlan root plan.undated).filter (FilePath.keptBy plan.dates) := by
  have hfiles : (fs.sourcesNamed root plan).flatMap (fun s => fs.filesOfSource root s plan.dates) =
      ((fs.sourcesNamed root plan).flatMap fun s => fs.filesOfSource root s []).filter
        (FilePath.keptBy plan.dates) := by
    rw [List.filter_flatMap]
    refine List.flatMap_congr fun source hsource => ?_
    exact filesOfSource_eq_filter h hdates (hdated source (List.mem_eraseDups.mpr hsource))
  calc fs.filesOfPlan root plan
      = ((fs.sourcesNamed root plan).flatMap fun s =>
          fs.filesOfSource root s plan.dates).eraseDupsBy FilePath.same := filesOfPlan_eq ..
    _ = (((fs.sourcesNamed root plan).flatMap fun s =>
          fs.filesOfSource root s []).eraseDupsBy FilePath.same).filter
            (FilePath.keptBy plan.dates) := by
        rw [hfiles, filter_eraseDupsBy fun p q => FilePath.keptBy_congr plan.dates]
    _ = (fs.filesOfPlan root plan.undated).filter (FilePath.keptBy plan.dates) := by
        rw [filesOfPlan_eq]
        rfl

end FileSystem

end Store

end LogQuery
