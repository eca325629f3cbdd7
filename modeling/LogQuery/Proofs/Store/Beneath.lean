import Mathlib.Data.List.Induction
import LogQuery.Compile.Query
import LogQuery.Proofs.Store.Sources

/-!
# Files beneath the log root

Read by its text, a path goes down with each part and back with each `..`. A source that
never goes back behind its start has its files beneath the log root, and so have all the
sources that the star stands for. The name of a source is not restricted, though: one that
goes back behind the log root, or starts at the top, has its files where it leads.
-/

namespace LogQuery.Store

open LogQuery.Predicate

namespace FilePath

/-- Where a part of a path leads from a place. Nothing is above the top; where a relative
path starts is not known, so going back from there is kept. -/
def goTo (absolute : Bool) (place : List String) (part : String) : List String :=
  if isIdle part then place
  else if part != ".." then place ++ [part]
  else
    match place.getLast? with
    | none => if absolute then [] else [".."]
    | some last => if last == ".." then place ++ [".."] else place.dropLast

/-- The names on the way to a path, read by its text. -/
def resolved (p : FilePath) : List String := p.parts.foldl (goTo p.isAbsolute) []

/-- The names on the way to a path are those to the root and then some that go down. -/
structure LiesBeneath (p root : FilePath) : Prop where
  start : p.isAbsolute = root.isAbsolute
  below : ∃ names, names ≠ [] ∧ ".." ∉ names ∧ p.resolved = root.resolved ++ names

/-- A source that never goes back behind its start. -/
def Descends (source : String) : Prop :=
  isAbsolute ⟨source⟩ = false ∧ ".." ∉ resolved ⟨source⟩

instance (source : String) : Decidable (Descends source) := inferInstanceAs (Decidable (_ ∧ _))

variable {p root : FilePath} {name source : String} {place : List String}

theorem goTo_idle (absolute : Bool) (place : List String) (h : isIdle name = true) :
    goTo absolute place name = place := if_pos h

theorem goTo_fileName (absolute : Bool) (place : List String) (h : IsFileName name) :
    goTo absolute place name = place ++ [name] := by
  have hup : (name != "..") = true := by simpa using h.not_up
  rw [goTo, if_neg (by simp [h.not_idle]), if_pos hup]

/-- A path below another one leads on from where the other leads. -/
theorem resolved_join (p : FilePath) (h : isAbsolute ⟨name⟩ = false) :
    (p.join name).isAbsolute = p.isAbsolute ∧
      (p.join name).resolved = (parts ⟨name⟩).foldl (goTo p.isAbsolute) p.resolved := by
  by_cases hp : p.text = ""
  · have hjoin : p.join name = ⟨name⟩ := by
      unfold join
      rw [h, hp]
      simp
    have hstart : p.isAbsolute = false := by
      rw [isAbsolute, hp]
      rfl
    have hplace : p.resolved = [] := by
      rw [resolved, parts, hp]
      rfl
    rw [hjoin, hplace, hstart, resolved, h]
    exact ⟨rfl, rfl⟩
  · have hstart := isAbsolute_join hp h
    obtain ⟨ps, -, hjoin, hparts⟩ := parts_join hp h
    have hplace : ps.foldl (goTo p.isAbsolute) [] = p.resolved := by
      rcases hparts with hps | hps
      · rw [resolved, hps]
      · rw [resolved, hps, List.foldl_append]
        exact (goTo_idle p.isAbsolute _ isIdle_empty).symm
    refine ⟨hstart, ?_⟩
    rw [resolved, hstart, hjoin, List.foldl_append, hplace]

theorem resolved_join_fileName (p : FilePath) (h : IsFileName name) :
    (p.join name).isAbsolute = p.isAbsolute ∧ (p.join name).resolved = p.resolved ++ [name] := by
  obtain ⟨hstart, hplace⟩ := resolved_join p (isAbsolute_eq_false h)
  rw [parts_fileName h] at hplace
  exact ⟨hstart, hplace.trans (goTo_fileName _ _ h)⟩

/-! ## Sources that descend -/

/-- Having gone back behind the start of a path cannot be undone. -/
theorem up_mem_goTo (h : ".." ∈ place) (part : String) : ".." ∈ goTo false place part := by
  unfold goTo
  split
  · exact h
  · split
    · exact List.mem_append_left _ h
    · cases hlast : place.getLast? with
      | none =>
        rw [List.getLast?_eq_none_iff.mp hlast] at h
        cases h
      | some last =>
        obtain ⟨before, rfl⟩ := List.getLast?_eq_some_iff.mp hlast
        rcases List.mem_append.mp h with hbefore | hup
        · dsimp only
          split <;> simp [hbefore]
        · have hup : last = ".." := (List.mem_singleton.mp hup).symm
          simp [hup]

/-- A part that does not go back behind the start leads from a place as it does from there. -/
theorem goTo_append (absolute : Bool) (base : List String) {part : String}
    (h : ".." ∉ goTo false place part) :
    goTo absolute (base ++ place) part = base ++ goTo false place part := by
  unfold goTo at h ⊢
  split
  · rfl
  · next hidle =>
    rw [if_neg hidle] at h
    split
    · exact List.append_assoc ..
    · next hup =>
      rw [if_neg hup] at h
      cases hlast : place.getLast? with
      | none => simp [hlast] at h
      | some last =>
        obtain ⟨before, rfl⟩ := List.getLast?_eq_some_iff.mp hlast
        by_cases hl : last = ".."
        · simp [hl] at h
        · rw [← List.append_assoc]
          simp [hl]

theorem foldl_goTo (absolute : Bool) (base : List String) {parts : List String}
    (h : ".." ∉ parts.foldl (goTo false) []) :
    parts.foldl (goTo absolute) base = base ++ parts.foldl (goTo false) [] := by
  induction parts using List.reverseRecOn with
  | nil => exact (List.append_nil base).symm
  | append_singleton parts part ih =>
    simp only [List.foldl_append, List.foldl_cons, List.foldl_nil] at h ⊢
    have hbefore : ".." ∉ parts.foldl (goTo false) [] := fun hm => h (up_mem_goTo hm part)
    rw [ih hbefore]
    exact goTo_append absolute base h

theorem Descends.resolved_join (h : Descends source) (root : FilePath) :
    (root.join source).isAbsolute = root.isAbsolute ∧
      (root.join source).resolved = root.resolved ++ resolved ⟨source⟩ := by
  obtain ⟨hrelative, hup⟩ := h
  obtain ⟨hstart, hplace⟩ := FilePath.resolved_join root hrelative
  have hsource : resolved ⟨source⟩ = (parts ⟨source⟩).foldl (goTo false) [] := by
    rw [resolved, hrelative]
  rw [hsource] at hup ⊢
  exact ⟨hstart, hplace.trans (foldl_goTo _ _ hup)⟩

theorem descends_fileName (h : IsFileName name) : Descends name := by
  have hrelative : isAbsolute ⟨name⟩ = false := isAbsolute_eq_false h
  refine ⟨hrelative, ?_⟩
  rw [resolved, parts_fileName h, List.foldl_cons, List.foldl_nil, goTo_fileName _ _ h]
  simpa using h.not_up.symm

end FilePath

namespace FileSystem

open FilePath

variable {fs : FileSystem} {root : FilePath} {plan : Plan} {source day name : String}
  {dates : List DateCondition}

/-! ## The files of a source -/

theorem resolved_logFile (h : fs.top.IsTree) (hlog : fs.IsLogFile root source dates day name) :
    (((root.join source).join day).join name).isAbsolute = (root.join source).isAbsolute ∧
      (((root.join source).join day).join name).resolved =
        (root.join source).resolved ++ [day] ++ [name] := by
  obtain ⟨es, hday⟩ := hlog.directory
  obtain ⟨content, hname⟩ := hlog.file
  obtain ⟨hstart, hplace⟩ := resolved_join_fileName (root.join source) (isFileName_of_holds h hday)
  obtain ⟨hstart', hplace'⟩ :=
    resolved_join_fileName ((root.join source).join day) (isFileName_of_holds h hname)
  exact ⟨hstart'.trans hstart, by rw [hplace', hplace]⟩

/-- The day of a source is at the root or beneath it. -/
structure LeadsInto (root : FilePath) (source day : String) : Prop where
  start : (root.join source).isAbsolute = root.isAbsolute
  below : ∃ names, ".." ∉ names ∧ (root.join source).resolved ++ [day] = root.resolved ++ names

/-- A log file lies beneath the root when the directory of its day does or is the root. -/
theorem liesBeneath_logFile (h : fs.top.IsTree) (hlog : fs.IsLogFile root source dates day name) :
    (((root.join source).join day).join name).LiesBeneath root ↔ LeadsInto root source day := by
  obtain ⟨hstart, hplace⟩ := resolved_logFile h hlog
  obtain ⟨content, hname⟩ := hlog.file
  have hup : name ≠ ".." := (isFileName_of_holds h hname).not_up
  constructor
  · rintro ⟨hsame, names, hne, hdown, hnames⟩
    obtain ⟨before, last, rfl⟩ := (List.eq_nil_or_concat' names).resolve_left hne
    rw [hplace, ← List.append_assoc] at hnames
    refine ⟨hstart.symm.trans hsame, before, fun hm => hdown (List.mem_append_left _ hm), ?_⟩
    exact List.append_inj_left' hnames rfl
  · rintro ⟨hsame, names, hdown, hnames⟩
    refine ⟨hstart.trans hsame, names ++ [name], by simp, ?_, ?_⟩
    · simpa [hdown] using hup.symm
    · rw [hplace, hnames, List.append_assoc]

theorem leadsInto_of_descends (hsource : Descends source) (hday : IsFileName day) :
    LeadsInto root source day := by
  obtain ⟨hstart, hplace⟩ := hsource.resolved_join root
  refine ⟨hstart, resolved ⟨source⟩ ++ [day], ?_, by rw [hplace, List.append_assoc]⟩
  simpa [hsource.2] using hday.not_up.symm

theorem descends_of_mem_sources (h : fs.top.IsTree) (hs : source ∈ fs.sources root) :
    Descends source := by
  obtain ⟨es, hholds⟩ := mem_directoriesIn.mp hs
  exact descends_fileName (isFileName_of_holds h hholds)

/-- The sources that a plan reads descend if those that it names do, the star aside. -/
theorem descends_of_mem_sourcesOfPlan (h : fs.top.IsTree)
    (hnamed : ∀ s ∈ plan.sources, s = allSources ∨ Descends s)
    (hs : source ∈ fs.sourcesOfPlan root plan) : Descends source := by
  obtain ⟨named, hmem, hs⟩ := List.mem_flatMap.mp (List.mem_eraseDups.mp hs)
  split at hs
  · exact descends_of_mem_sources h hs
  · next hstar =>
    rw [List.mem_singleton.mp hs]
    rcases hnamed named hmem with hall | hdescends
    · exact absurd (beq_iff_eq.mpr hall) hstar
    · exact hdescends

/-- Each file of a plan is a log file of one of its sources, and lies beneath the log root
when the day of the source does or is the root. So all files of a plan do whose sources
never go back behind their start. -/
theorem files_beneath (h : fs.top.IsTree) (root : FilePath) (plan : Plan) :
    (∀ p ∈ fs.filesOfPlan root plan, ∃ source ∈ fs.sourcesOfPlan root plan, ∃ day name,
      fs.IsLogFile root source plan.dates day name ∧
        p = ((root.join source).join day).join name ∧
        (p.LiesBeneath root ↔ LeadsInto root source day)) ∧
    ((∀ s ∈ plan.sources, s = allSources ∨ Descends s) →
      ∀ p ∈ fs.filesOfPlan root plan, p.LiesBeneath root) := by
  constructor
  · intro p hp
    obtain ⟨source, hsource, day, name, hlog, rfl⟩ := isLogFile_of_mem hp
    exact ⟨source, hsource, day, name, hlog, rfl, liesBeneath_logFile h hlog⟩
  · intro hnamed p hp
    obtain ⟨source, hsource, day, name, hlog, rfl⟩ := isLogFile_of_mem hp
    obtain ⟨es, hday⟩ := hlog.directory
    refine (liesBeneath_logFile h hlog).mpr (leadsInto_of_descends ?_ (isFileName_of_holds h hday))
    exact descends_of_mem_sourcesOfPlan h hnamed hsource

/-- Logs in a directory, and others beside it. -/
def besideLogs : FileSystem where
  top := .directory [
    ("logs", .directory [("app", .directory [("2020-01-01", .directory [
      ("2020-01-01T00-00-00.log", .file ⟨[], none⟩)])])]),
    ("other", .directory [("2020-01-01", .directory [("2020-01-01T00-00-00.log", .file ⟨[], none⟩)])])]
  working := []

/-- All records of some sources. -/
def recordsOf (sources : List String) : Plan := ⟨sources, [], [], [], none, .search⟩

theorem files_beneath_besideLogs : besideLogs.top.IsTree ∧
    (∀ s ∈ ["app/../app"], s = allSources ∨ Descends s) ∧
    besideLogs.filesOfPlan ⟨"logs"⟩ (recordsOf ["app/../app"]) =
      [⟨"logs/app/../app/2020-01-01/2020-01-01T00-00-00.log"⟩] ∧
    LiesBeneath ⟨"logs/app/../app/2020-01-01/2020-01-01T00-00-00.log"⟩ ⟨"logs"⟩ := by
  have h : besideLogs.top.IsTree := by decide +kernel
  have hnamed : ∀ s ∈ ["app/../app"], s = allSources ∨ Descends s := by decide +kernel
  have hfiles : besideLogs.filesOfPlan ⟨"logs"⟩ (recordsOf ["app/../app"]) =
      [⟨"logs/app/../app/2020-01-01/2020-01-01T00-00-00.log"⟩] := by decide +kernel
  refine ⟨h, hnamed, hfiles, ?_⟩
  refine (files_beneath h ⟨"logs"⟩ (recordsOf ["app/../app"])).2 hnamed _ ?_
  rw [hfiles]
  exact List.mem_singleton_self _

/-- A source may be named so that its files lie beside the log root. -/
theorem beside_log_root : ∃ plan p, Plan.ofQuery "SELECT * FROM \"../other\"" = .ok plan ∧
    p ∈ besideLogs.filesOfPlan ⟨"logs"⟩ plan ∧ ¬ resolved ⟨"logs"⟩ <+: p.resolved ∧
      ¬ p.LiesBeneath ⟨"logs"⟩ := by
  have hplan : (Plan.ofQuery "SELECT * FROM \"../other\"").toOption = some (recordsOf ["../other"]) := by
    decide +kernel
  have hfiles : besideLogs.filesOfPlan ⟨"logs"⟩ (recordsOf ["../other"]) =
      [⟨"logs/../other/2020-01-01/2020-01-01T00-00-00.log"⟩] := by decide +kernel
  have houtside : ¬ resolved ⟨"logs"⟩ <+:
      resolved ⟨"logs/../other/2020-01-01/2020-01-01T00-00-00.log"⟩ := by decide +kernel
  refine ⟨recordsOf ["../other"], _, ?_, hfiles ▸ List.mem_singleton_self _, houtside, ?_⟩
  · cases hquery : Plan.ofQuery "SELECT * FROM \"../other\"" with
    | error e =>
      rw [hquery] at hplan
      cases hplan
    | ok plan =>
      rw [hquery] at hplan
      rw [Option.some.inj hplan]
  · rintro ⟨-, names, -, -, hnames⟩
    exact houtside ⟨names, hnames.symm⟩

end FileSystem

end LogQuery.Store
