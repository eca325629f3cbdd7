import LogQuery.Proofs.Store.Lookup
import LogQuery.Store.Sources

/-!
# The log files of a source and of a plan

The files of a source are those of the layout that its conditions on the date accept,
each once, by the names of their days and then by their own. A plan reads the files of
its sources one after the other and passes over a file that it has read; whether it
passes over a source that it has read as well makes no difference.
-/

namespace LogQuery.Store

open LogQuery.Predicate LogQuery.Calendar

/-! ## Files that are read once -/

section Repeats

variable {found ps : List FilePath} {p : FilePath}

/-- Adds a path, unless it is there. -/
def addNew (found : List FilePath) (p : FilePath) : List FilePath :=
  if p.isIn found then found else found ++ [p]

theorem isIn_append (p : FilePath) (ps qs : List FilePath) :
    p.isIn (ps ++ qs) = (p.isIn ps || p.isIn qs) := List.any_append

theorem isIn_addNew (h : p.isIn found = true) (q : FilePath) : p.isIn (addNew found q) = true := by
  unfold addNew
  split
  · exact h
  · rw [isIn_append, h, Bool.true_or]

theorem isIn_foldl (h : p.isIn found = true) (ps : List FilePath) :
    p.isIn (ps.foldl addNew found) = true := by
  induction ps generalizing found with
  | nil => exact h
  | cons q qs ih => exact ih (isIn_addNew h q)

theorem isIn_addNew_self (found : List FilePath) (p : FilePath) :
    p.isIn (addNew found p) = true := by
  unfold addNew
  split
  · next h => exact h
  · rw [isIn_append]
    simp [FilePath.isIn, FilePath.same_refl]

/-- All paths that are added are there. -/
theorem isIn_foldl_of_mem (h : p ∈ ps) (found : List FilePath) :
    p.isIn (ps.foldl addNew found) = true := by
  induction ps generalizing found with
  | nil => cases h
  | cons q qs ih =>
    rcases List.mem_cons.mp h with rfl | hq
    · exact isIn_foldl (isIn_addNew_self found p) qs
    · exact ih hq _

theorem foldl_addNew_eq_self (h : ∀ p ∈ ps, p.isIn found = true) : ps.foldl addNew found = found := by
  induction ps with
  | nil => rfl
  | cons q qs ih =>
    obtain ⟨hq, hqs⟩ := List.forall_mem_cons.mp h
    rw [List.foldl_cons, addNew, if_pos hq]
    exact ih hqs

/-- What is added to the paths found are the first of the others. -/
theorem foldl_addNew (found ps : List FilePath) : ps.foldl addNew found =
    found ++ (ps.filter fun p => !p.isIn found).eraseDupsBy FilePath.same := by
  -- Each path that is added leaves fewer of the rest, so the paths found are generalized.
  induction ps generalizing found with
  | nil => simp
  | cons q qs ih =>
    rw [List.foldl_cons, addNew]
    cases hq : q.isIn found with
    | true => simp [ih, hq]
    | false =>
      rw [if_neg (by simp), ih, List.filter_cons_of_pos (by simp [hq]), List.eraseDupsBy_cons,
        List.filter_filter]
      simp only [isIn_append, List.append_assoc, List.singleton_append]
      congr 3
      refine List.filter_congr fun p _ => ?_
      simp [FilePath.isIn, Bool.and_comm]

theorem mem_of_mem_eraseDupsBy {r : FilePath → FilePath → Bool} :
    ∀ {ps : List FilePath}, p ∈ ps.eraseDupsBy r → p ∈ ps
  | [], h => h
  | q :: qs, h => by
    rw [List.eraseDupsBy_cons] at h
    rcases List.mem_cons.mp h with rfl | h
    · exact List.mem_cons_self
    · exact List.mem_cons_of_mem _ (List.mem_of_mem_filter (mem_of_mem_eraseDupsBy h))
termination_by ps => ps.length
decreasing_by exact Nat.lt_succ_of_le (List.length_filter_le _ _)

theorem withoutRepeats_eq (ps : List FilePath) :
    FileSystem.withoutRepeats ps = ps.eraseDupsBy FilePath.same :=
  (foldl_addNew [] ps).trans (by simp [FilePath.isIn])

variable {α : Type} [BEq α] [LawfulBEq α]

/-- A source all of whose files are found adds nothing. -/
theorem foldl_flatMap_filter (files : α → List FilePath) (x : α) (xs : List α)
    (h : ∀ p ∈ files x, p.isIn found = true) :
    (xs.flatMap files).foldl addNew found =
      ((xs.filter fun y => !y == x).flatMap files).foldl addNew found := by
  induction xs generalizing found with
  | nil => rfl
  | cons y ys ih =>
    rw [List.flatMap_cons, List.foldl_append]
    cases hy : y == x with
    | true =>
      -- All files of `x` are found, so its turn changes nothing, and they still are.
      rw [List.filter_cons_of_neg (by simp [hy]), eq_of_beq hy, foldl_addNew_eq_self h]
      exact ih h
    | false =>
      rw [List.filter_cons_of_pos (by simp [hy]), List.flatMap_cons, List.foldl_append]
      exact ih fun p hp => isIn_foldl (h p hp) _

/-- Sources may be passed over the second time. -/
theorem foldl_flatMap_eraseDups (files : α → List FilePath) :
    ∀ (xs : List α) (found : List FilePath), (xs.eraseDups.flatMap files).foldl addNew found =
      (xs.flatMap files).foldl addNew found
  | [], _ => rfl
  | x :: xs, found => by
    rw [List.eraseDups_cons, List.flatMap_cons, List.flatMap_cons, List.foldl_append,
      List.foldl_append, foldl_flatMap_eraseDups files (xs.filter _),
      foldl_flatMap_filter files x xs fun p hp => isIn_foldl_of_mem hp found]
termination_by xs => xs.length
decreasing_by exact Nat.lt_succ_of_le (List.length_filter_le _ _)

theorem withoutRepeats_flatMap_eraseDups (files : α → List FilePath) (xs : List α) :
    FileSystem.withoutRepeats (xs.eraseDups.flatMap files) =
      (xs.flatMap files).eraseDupsBy FilePath.same :=
  (foldl_flatMap_eraseDups files xs []).trans (withoutRepeats_eq _)

end Repeats

namespace FileSystem

variable {fs : FileSystem} {root : FilePath} {source : String} {dates : List DateCondition}

/-! ## The entries of a directory -/

/-- The names of the directories, or of the files, that a directory holds. -/
def namesIn (fs : FileSystem) (p : FilePath) (directories : Bool) : List String :=
  (fs.entriesOf p directories).map Prod.fst

variable {p : FilePath} {directories : Bool} {name : String}

theorem entriesOf_eq (fs : FileSystem) (p : FilePath) (directories : Bool) :
    fs.entriesOf p directories =
      (fs.namesIn p directories).map fun name => (name, p.join name) := by
  unfold namesIn entriesOf
  cases fs.node p with
  | error e => rfl
  | ok n => simp [Function.comp_def]

theorem mem_namesIn :
    name ∈ fs.namesIn p directories ↔ ∃ n, fs.Holds p name n ∧ n.isDirectory = directories := by
  unfold namesIn entriesOf Holds
  cases fs.node p with
  | error e => simp
  | ok n =>
    cases n with
    | file content => simp [Node.entries]
    | directory es => simp [Node.entries]

theorem mem_directoriesIn : name ∈ fs.namesIn p true ↔ ∃ es, fs.Holds p name (.directory es) := by
  rw [mem_namesIn]
  constructor
  · rintro ⟨n, hn, hdir⟩
    cases n with
    | file content => cases hdir
    | directory es => exact ⟨es, hn⟩
  · rintro ⟨es, hn⟩
    exact ⟨_, hn, rfl⟩

theorem mem_filesIn : name ∈ fs.namesIn p false ↔ ∃ content, fs.Holds p name (.file content) := by
  rw [mem_namesIn]
  constructor
  · rintro ⟨n, hn, hdir⟩
    cases n with
    | file content => exact ⟨content, hn⟩
    | directory es => cases hdir
  · rintro ⟨content, hn⟩
    exact ⟨_, hn, rfl⟩

theorem nodup_entries {n : Node} (h : n.IsTree) : (n.entries.map Prod.fst).Nodup := by
  cases h with
  | file content => exact .nil
  | directory distinct names below => exact distinct

theorem lt_of_le_of_ne {a b : String} (h : a ≤ b) (hne : a ≠ b) : a < b :=
  String.not_le.mp fun hba => hne (String.le_antisymm h hba)

theorem pairwise_mergeSort {names : List String} (h : names.Nodup) :
    (names.mergeSort fun a b => a ≤ b).Pairwise (· < ·) := by
  have htrans : ∀ a b c : String, decide (a ≤ b) = true → decide (b ≤ c) = true →
      decide (a ≤ c) = true := by
    simp only [decide_eq_true_eq]
    exact fun _ _ _ hab hbc => String.le_trans hab hbc
  have htotal : ∀ a b : String, (decide (a ≤ b) || decide (b ≤ a)) = true := by
    simpa using String.le_total
  have hsorted := List.pairwise_mergeSort htrans htotal names
  have hnodup := (List.mergeSort_perm names fun a b => a ≤ b).nodup_iff.mpr h
  exact (hsorted.and hnodup).imp fun hab => lt_of_le_of_ne (of_decide_eq_true hab.1) hab.2

/-- Names come in their order, each once. -/
theorem pairwise_namesIn (h : fs.top.IsTree) (p : FilePath) (directories : Bool) :
    (fs.namesIn p directories).Pairwise (· < ·) := by
  unfold namesIn entriesOf
  cases hn : fs.node p with
  | error e => exact .nil
  | ok n =>
    simp only [List.map_map, Function.comp_def, List.map_id']
    exact pairwise_mergeSort
      ((nodup_entries (isTree_of_node h hn)).sublist (List.filter_sublist.map Prod.fst))

theorem isFileName_of_holds {n : Node} (h : fs.top.IsTree) (hn : fs.Holds p name n) :
    IsFileName name := by
  obtain ⟨es, hp, hmem⟩ := hn
  cases isTree_of_node h hp with
  | directory distinct names below => exact names _ hmem

/-! ## The files of a source -/

/-- The names of the days of a source that conditions on the date accept. -/
def dayNames (fs : FileSystem) (p : FilePath) (dates : List DateCondition) : List String :=
  (fs.namesIn p true).filter fun name => (day? name.toList).any (allAcceptDay dates)

/-- The names of the log files of a directory that conditions on the date accept. -/
def fileNames (fs : FileSystem) (p : FilePath) (dates : List DateCondition) : List String :=
  (fs.namesIn p false).filter fun name => (startOf? name).any (allAcceptInstant dates)

/-- The names of the log files of a source, each with that of its day before it. -/
def logNames (fs : FileSystem) (p : FilePath) (dates : List DateCondition) : List (String × String) :=
  (fs.dayNames p dates).flatMap fun day => (fs.fileNames (p.join day) dates).map (day, ·)

theorem filterMap_names (names : List String) (p : FilePath) (accepted : String → Bool) :
    ((names.map fun name => (name, p.join name)).filterMap fun (name, path) =>
      if accepted name then some path else none) = (names.filter accepted).map p.join := by
  rw [List.filterMap_map, ← List.filterMap_eq_filter, List.map_filterMap]
  refine List.filterMap_congr fun name _ => ?_
  cases h : accepted name <;> simp [Option.guard, h]

theorem dayDirectories_eq (fs : FileSystem) (root : FilePath) (source : String)
    (dates : List DateCondition) : fs.dayDirectories root source dates =
      (fs.dayNames (root.join source) dates).map (root.join source).join := by
  unfold dayDirectories
  rw [entriesOf_eq]
  exact filterMap_names _ _ fun name => (day? name.toList).any (allAcceptDay dates)

theorem filesOfDay_eq (fs : FileSystem) (dates : List DateCondition) (p : FilePath) :
    fs.filesOfDay dates p = (fs.fileNames p dates).map p.join := by
  unfold filesOfDay
  rw [entriesOf_eq]
  exact filterMap_names _ _ fun name => (startOf? name).any (allAcceptInstant dates)

theorem filesOfSource_eq (fs : FileSystem) (root : FilePath) (source : String)
    (dates : List DateCondition) : fs.filesOfSource root source dates =
      (fs.logNames (root.join source) dates).map fun names =>
        ((root.join source).join names.1).join names.2 := by
  unfold filesOfSource logNames
  rw [dayDirectories_eq, List.flatMap_map, List.map_flatMap]
  refine List.flatMap_congr fun day _ => ?_
  rw [filesOfDay_eq, List.map_map]
  rfl

theorem pairwise_logNames (h : fs.top.IsTree) (p : FilePath) (dates : List DateCondition) :
    (fs.logNames p dates).Pairwise (Prod.Lex (· < ·) (· < ·)) := by
  refine List.pairwise_flatMap.mpr ⟨fun day _ => ?_, ?_⟩
  · refine List.pairwise_map.mpr (((pairwise_namesIn h _ _).filter _).imp fun hlt => ?_)
    exact .right day hlt
  · refine ((pairwise_namesIn h _ _).filter _).imp fun hlt x hx y hy => ?_
    obtain ⟨name, -, rfl⟩ := List.mem_map.mp hx
    obtain ⟨name', -, rfl⟩ := List.mem_map.mp hy
    exact .left name name' hlt

theorem ne_of_lex {names names' : String × String} (h : Prod.Lex (· < ·) (· < ·) names names') :
    names ≠ names' := by
  rintro rfl
  cases h with
  | left _ _ hlt => exact String.lt_irrefl _ hlt
  | right _ hlt => exact String.lt_irrefl _ hlt

theorem startOf?_eq_some {name : String} {t : Instant} : startOf? name = some t ↔
    ∃ stem, name = stem ++ ".log" ∧ instant? fileNameLayout stem.toList = some t := by
  unfold startOf?
  simp only [Option.ite_none_right_eq_some, List.isSuffixOf_iff_suffix]
  constructor
  · rintro ⟨⟨stem, hstem⟩, h⟩
    refine ⟨String.ofList stem, String.toList_inj.mp ?_, ?_⟩
    · rw [← hstem]
      simp [logSuffix]
    · rw [← hstem] at h
      simpa using h
  · rintro ⟨stem, rfl, h⟩
    refine ⟨⟨stem.toList, by simp [logSuffix]⟩, ?_⟩
    simpa [logSuffix] using h

/-- A log file of a source, by the name of its day and its own: a file in a directory of the
source, named for a day and an instant that the conditions on the date accept. -/
structure IsLogFile (fs : FileSystem) (root : FilePath) (source : String)
    (dates : List DateCondition) (day name : String) : Prop where
  directory : ∃ es, fs.Holds (root.join source) day (.directory es)
  file : ∃ content, fs.Holds ((root.join source).join day) name (.file content)
  accepts_day : ∃ d, day? day.toList = some d ∧ ∀ c ∈ dates, c.acceptsDay d = true
  accepts_start : ∃ stem t, name = stem ++ ".log" ∧ instant? fileNameLayout stem.toList = some t ∧
    ∀ c ∈ dates, c.acceptsInstant t = true

theorem mem_dayNames {day : String} : day ∈ fs.dayNames p dates ↔
    (∃ es, fs.Holds p day (.directory es)) ∧
      ∃ d, day? day.toList = some d ∧ ∀ c ∈ dates, c.acceptsDay d = true := by
  rw [dayNames, List.mem_filter, mem_directoriesIn, Option.any_eq_true]
  simp only [allAcceptDay, List.all_eq_true]

theorem mem_fileNames : name ∈ fs.fileNames p dates ↔
    (∃ content, fs.Holds p name (.file content)) ∧
      ∃ stem t, name = stem ++ ".log" ∧ instant? fileNameLayout stem.toList = some t ∧
        ∀ c ∈ dates, c.acceptsInstant t = true := by
  rw [fileNames, List.mem_filter, mem_filesIn, Option.any_eq_true]
  simp only [allAcceptInstant, List.all_eq_true, startOf?_eq_some]
  refine and_congr_right fun _ => ⟨?_, ?_⟩
  · rintro ⟨t, ⟨stem, hname, ht⟩, hall⟩
    exact ⟨stem, t, hname, ht, hall⟩
  · rintro ⟨stem, t, hname, ht, hall⟩
    exact ⟨t, ⟨stem, hname, ht⟩, hall⟩

theorem mem_logNames {day : String} : (day, name) ∈ fs.logNames (root.join source) dates ↔
    fs.IsLogFile root source dates day name := by
  simp only [logNames, List.mem_flatMap, List.mem_map, Prod.mk.injEq, mem_dayNames, mem_fileNames]
  constructor
  · rintro ⟨day', ⟨hdir, hday⟩, name', ⟨hfile, hstart⟩, rfl, rfl⟩
    exact ⟨hdir, hfile, hday, hstart⟩
  · rintro ⟨hdir, hfile, hday, hstart⟩
    exact ⟨day, ⟨hdir, hday⟩, name, ⟨hfile, hstart⟩, rfl, rfl⟩

theorem text_ne_of_holds {n : Node} (hn : fs.Holds p name n) : p.text ≠ "" := by
  obtain ⟨es, hp, -⟩ := hn
  exact (node_eq_ok.mp hp).2.1

theorem components_logFile {day name : String} (h : fs.top.IsTree)
    (hn : fs.IsLogFile root source dates day name) :
    (((root.join source).join day).join name).components =
      (root.join source).components ++ [day] ++ [name] := by
  obtain ⟨es, hday⟩ := hn.directory
  obtain ⟨content, hname⟩ := hn.file
  rw [FilePath.components_join (text_ne_of_holds hname) (isFileName_of_holds h hname),
    FilePath.components_join (text_ne_of_holds hday) (isFileName_of_holds h hday)]

/-- Log files of different names have different paths. -/
theorem same_eq_false {names names' : String × String} (h : fs.top.IsTree)
    (hn : fs.IsLogFile root source dates names.1 names.2)
    (hn' : fs.IsLogFile root source dates names'.1 names'.2) (hne : names ≠ names') :
    (((root.join source).join names.1).join names.2).same
      (((root.join source).join names'.1).join names'.2) = false := by
  rw [FilePath.same, components_logFile h hn, components_logFile h hn', Bool.and_eq_false_iff]
  refine .inr (beq_eq_false_iff_ne.mpr fun he => hne ?_)
  simpa [Prod.ext_iff] using he

theorem node_logFile {day name : String} (h : fs.top.IsTree)
    (hn : fs.IsLogFile root source dates day name)
    (hfit : (((root.join source).join day).join name).text.utf8ByteSize < pathLimit) :
    ∃ content, fs.node (((root.join source).join day).join name) = .ok (.file content) := by
  obtain ⟨content, hname⟩ := hn.file
  exact ⟨content, hname.node_join h hfit⟩

/-- What is true of the log files of a source: their names tell which files they are, and in
what order. -/
structure ListsLogFiles (fs : FileSystem) (root : FilePath) (source : String)
    (dates : List DateCondition) (names : List (String × String)) (files : List FilePath) : Prop where
  paths : files = names.map fun names => ((root.join source).join names.1).join names.2
  mem : ∀ day name, (day, name) ∈ names ↔ fs.IsLogFile root source dates day name
  sorted : names.Pairwise (Prod.Lex (· < ·) (· < ·))
  distinct : files.Pairwise fun p p' => p.same p' = false
  regular : ∀ p ∈ files, p.text.utf8ByteSize < pathLimit → ∃ content, fs.node p = .ok (.file content)

theorem listsLogFiles_filesOfSource (h : fs.top.IsTree) (root : FilePath) (source : String)
    (dates : List DateCondition) : fs.ListsLogFiles root source dates
      (fs.logNames (root.join source) dates) (fs.filesOfSource root source dates) where
  paths := filesOfSource_eq fs root source dates
  mem _ _ := mem_logNames
  sorted := pairwise_logNames h _ dates
  distinct := by
    rw [filesOfSource_eq, List.pairwise_map]
    refine (pairwise_logNames h _ dates).imp_of_mem fun hmem hmem' hlex => ?_
    refine same_eq_false h (mem_logNames.mp hmem) (mem_logNames.mp hmem') fun he => ?_
    exact ne_of_lex hlex he
  regular := by
    rw [filesOfSource_eq]
    intro p hp hfit
    obtain ⟨names, hnames, rfl⟩ := List.mem_map.mp hp
    exact node_logFile h (mem_logNames.mp hnames) hfit

/-! ## The files of a plan -/

theorem filesOfPlan_eq (fs : FileSystem) (root : FilePath) (plan : Plan) :
    fs.filesOfPlan root plan =
      ((plan.sources.flatMap fun s => if s == allSources then fs.sources root else [s]).flatMap
        fun s => fs.filesOfSource root s plan.dates).eraseDupsBy FilePath.same :=
  withoutRepeats_flatMap_eraseDups (fun s => fs.filesOfSource root s plan.dates) _

/-- Every file that a plan reads is a log file of a source that it reads. -/
theorem isLogFile_of_mem {plan : Plan} (hp : p ∈ fs.filesOfPlan root plan) :
    ∃ source ∈ fs.sourcesOfPlan root plan, ∃ day name,
      fs.IsLogFile root source plan.dates day name ∧
        p = ((root.join source).join day).join name := by
  rw [filesOfPlan, withoutRepeats_eq] at hp
  obtain ⟨source, hsource, hp⟩ := List.mem_flatMap.mp (mem_of_mem_eraseDupsBy hp)
  rw [filesOfSource_eq] at hp
  obtain ⟨names, hnames, rfl⟩ := List.mem_map.mp hp
  exact ⟨source, hsource, names.1, names.2, mem_logNames.mp hnames, rfl⟩

/-- The files of a source are its log files in order, and those of a plan are the files of
all the sources that it names, each where it comes first. -/
theorem files_resolved (h : fs.top.IsTree) (root : FilePath) :
    (∀ source dates, ∃ names,
      fs.ListsLogFiles root source dates names (fs.filesOfSource root source dates)) ∧
    ((fs.sources root).Pairwise (· < ·) ∧
      ∀ name, name ∈ fs.sources root ↔ ∃ es, fs.Holds root name (.directory es)) ∧
    ∀ plan : Plan, fs.filesOfPlan root plan =
      ((plan.sources.flatMap fun s => if s == allSources then fs.sources root else [s]).flatMap
        fun s => fs.filesOfSource root s plan.dates).eraseDupsBy FilePath.same :=
  ⟨fun source dates => ⟨_, listsLogFiles_filesOfSource h root source dates⟩,
    ⟨pairwise_namesIn h root true, fun _ => mem_directoriesIn⟩, filesOfPlan_eq fs root⟩

/-- Logs of a server on two days and of a database without any, and what else lies about. -/
def serverLogs : FileSystem where
  top := .directory [("logs", .directory [
    ("web", .directory [
      ("2020-01-02", .directory [("2020-01-02T08-00-00.log", .file ⟨[], none⟩), ("notes.txt", .file ⟨[], none⟩)]),
      ("2020-01-01", .directory [("2020-01-01T20-00-00.log", .file ⟨[], none⟩),
        ("2020-01-01T08-00-00.log", .file ⟨[], none⟩)]),
      ("tmp", .directory [])]),
    ("db", .directory []),
    ("readme", .file ⟨[], none⟩)])]
  working := []

theorem files_resolved_serverLogs : serverLogs.top.IsTree ∧
    (∀ source dates, ∃ names, serverLogs.ListsLogFiles ⟨"/logs"⟩ source dates names
      (serverLogs.filesOfSource ⟨"/logs"⟩ source dates)) ∧
    ((serverLogs.sources ⟨"/logs"⟩).Pairwise (· < ·) ∧
      ∀ name, name ∈ serverLogs.sources ⟨"/logs"⟩ ↔
        ∃ es, serverLogs.Holds ⟨"/logs"⟩ name (.directory es)) ∧
    ∀ plan : Plan, serverLogs.filesOfPlan ⟨"/logs"⟩ plan =
      ((plan.sources.flatMap fun s =>
        if s == allSources then serverLogs.sources ⟨"/logs"⟩ else [s]).flatMap
          fun s => serverLogs.filesOfSource ⟨"/logs"⟩ s plan.dates).eraseDupsBy FilePath.same :=
  have h : serverLogs.top.IsTree := by decide +kernel
  ⟨h, files_resolved h ⟨"/logs"⟩⟩

end FileSystem

end LogQuery.Store
