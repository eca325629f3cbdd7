import LogQuery.Proofs.Engine.Completeness

/-!
# The values of a field

A line that matches counts under the text of its first value at a path, if that is a
string, a number or a boolean. The counts of readable files say for each text how many
lines count under it, in whatever order the files, their lines and their counts come.
-/

namespace LogQuery.Engine

open LogQuery.Text LogQuery.Store LogQuery.Log LogQuery.Record LogQuery.Json

/-- The text of a string, a number or a boolean. -/
inductive HasText : Value → String → Prop
  | string (s : String) : HasText (.string s) s
  | number (n : Number) : HasText (.number n) (Value.number n).text
  | bool (b : Bool) : HasText (.bool b) (toString b)

/-- There is no value, or it is null, an array or an object. -/
inductive Textless : Option Value → Prop
  | absent : Textless none
  | null : Textless (some .null)
  | array (items : List Value) : Textless (some (.array items))
  | object (members : List (String × Value)) : Textless (some (.object members))

theorem text_bool (b : Bool) : (Value.bool b).text = toString b := by
  cases b <;> decide

theorem distinctKey?_eq_some {v : Value} {k : String} : distinctKey? v = some k ↔ HasText v k := by
  constructor
  · intro h
    cases v with
    | string s =>
      obtain rfl : s = k := Option.some.inj h
      exact .string s
    | number n =>
      obtain rfl : (Value.number n).text = k := Option.some.inj h
      exact .number n
    | bool b =>
      rw [distinctKey?, text_bool] at h
      obtain rfl : toString b = k := Option.some.inj h
      exact .bool b
    | null | array | object => cases h
  · intro h
    cases h with
    | string | number => rfl
    | bool b => rw [distinctKey?, text_bool]

theorem textless_iff {v? : Option Value} : Textless v? ↔ v?.bind distinctKey? = none := by
  constructor
  · intro h
    cases h <;> rfl
  · intro h
    match v?, h with
    | none, _ => exact .absent
    | some .null, _ => exact .null
    | some (.array items), _ => exact .array items
    | some (.object members), _ => exact .object members

section Lines

/-- A line holds a record that matches, and the text of its first value there is `k`. -/
def CountsAs (plan : Plan) (path : Path) (k : String) (line : Bytes) : Prop :=
  ∃ record v, Record.ofLine? line = some record ∧ plan.accepts record = true ∧
    path.value? record = some v ∧ HasText v k

/-- A line holds a record that matches, and its first value there has no text. -/
def CountsNot (plan : Plan) (path : Path) (line : Bytes) : Prop :=
  ∃ record, Record.ofLine? line = some record ∧ plan.accepts record = true ∧
    Textless (path.value? record)

variable {plan : Plan} {path : Path} {line : Bytes} {k : String}

theorem matchLine?_eq_some {record : Value} : plan.matchLine? line = some record ↔
    Record.ofLine? line = some record ∧ plan.accepts record = true :=
  Option.filter_eq_some_iff

theorem countsAs_iff : CountsAs plan path k line ↔ keyOf? plan path line = some k := by
  simp only [CountsAs, keyOf?, Option.bind_eq_some_iff, matchLine?_eq_some, distinctKey?_eq_some]
  constructor
  · rintro ⟨record, v, hline, haccepts, hv, hk⟩
    exact ⟨record, ⟨hline, haccepts⟩, v, hv, hk⟩
  · rintro ⟨record, ⟨hline, haccepts⟩, v, hv, hk⟩
    exact ⟨record, v, hline, haccepts, hv, hk⟩

theorem countsNot_iff : CountsNot plan path line ↔
    plan.matchesLine line = true ∧ keyOf? plan path line = none := by
  constructor
  · rintro ⟨record, hline, haccepts, hv⟩
    have hmatch : plan.matchLine? line = some record := matchLine?_eq_some.mpr ⟨hline, haccepts⟩
    rw [Plan.matchesLine, keyOf?, hmatch]
    exact ⟨rfl, textless_iff.mp hv⟩
  · rintro ⟨hmatch, hkey⟩
    obtain ⟨record, hrecord⟩ := Option.isSome_iff_exists.mp hmatch
    rw [keyOf?, hrecord] at hkey
    obtain ⟨hline, haccepts⟩ := matchLine?_eq_some.mp hrecord
    exact ⟨record, hline, haccepts, textless_iff.mpr hkey⟩

instance : DecidablePred (CountsAs plan path k) := fun _ => decidable_of_iff' _ countsAs_iff

instance : DecidablePred (CountsNot plan path) := fun _ => decidable_of_iff' _ countsNot_iff

/-- The lines of some files, file by file. -/
def linesOf (fs : FileSystem) (files : List FilePath) : List Bytes :=
  files.flatMap fun p => (linesIn fs p).map Prod.snd

variable {fs : FileSystem} {files : List FilePath}

theorem keysIn_eq : keysIn fs plan path files = (linesOf fs files).filterMap (keyOf? plan path) := by
  rw [keysIn, linesOf, List.filterMap_flatMap]
  simp only [keysOn, List.filterMap_map, Function.comp_def]

theorem recordsIn_eq : recordsIn fs plan files = (linesOf fs files).filterMap plan.outputOf? := by
  rw [recordsIn, linesOf, List.filterMap_flatMap]
  simp only [recordsOn, List.filterMap_map, Function.comp_def]
  rfl

/-- The answer to a plan depends on no more than which lines there are in which order. -/
theorem completeAnswer_of_lines {fs' : FileSystem} {files' : List FilePath}
    (h : linesOf fs files = linesOf fs' files') :
    completeAnswer fs plan files = completeAnswer fs' plan files' := by
  refine completeAnswer_congr ?_ fun path => ?_
  · rw [recordsIn_eq, recordsIn_eq, h]
  · rw [keysIn_eq, keysIn_eq, h]

theorem count_keysIn :
    (keysIn fs plan path files).count k = (linesOf fs files).countP (CountsAs plan path k) := by
  rw [keysIn_eq, List.count_filterMap]
  refine List.countP_congr fun line _ => ?_
  simp [countsAs_iff]

theorem length_recordsIn :
    (recordsIn fs plan files).length = (linesOf fs files).countP plan.matchesLine := by
  rw [recordsIn, linesOf, List.length_flatMap, List.countP_flatMap]
  congr 2
  funext p
  rw [Function.comp_apply, List.countP_map, ← length_matching, matching, List.length_map,
    ← List.countP_eq_length_filter]
  rfl

theorem matchesLine_of_keyOf? (h : keyOf? plan path line = some k) :
    plan.matchesLine line = true := by
  obtain ⟨record, hrecord, -⟩ := Option.bind_eq_some_iff.mp h
  rw [Plan.matchesLine, hrecord, Option.isSome_some]

/-- A line that matches either counts under a text or does not count. -/
theorem length_keysIn : (keysIn fs plan path files).length +
    (linesOf fs files).countP (CountsNot plan path) = (recordsIn fs plan files).length := by
  rw [keysIn_eq, length_recordsIn, List.length_filterMap_eq_countP]
  generalize linesOf fs files = lines
  induction lines with
  | nil => rfl
  | cons line lines ih =>
    -- a line that matches adds one on one of the two sides, any other line on neither
    have hnot : decide (CountsNot plan path line) =
        (plan.matchesLine line && (keyOf? plan path line).isNone) := by
      rw [Bool.eq_iff_iff, decide_eq_true_iff, countsNot_iff, Bool.and_eq_true,
        Option.isNone_iff_eq_none]
    rw [List.countP_cons, List.countP_cons, List.countP_cons, hnot]
    cases hkey : keyOf? plan path line with
    | some k =>
      simp only [matchesLine_of_keyOf? hkey, Option.isSome_some, Option.isNone_some, Bool.and_false]
      simp only [Bool.false_eq_true, if_true, if_false]
      omega
    | none =>
      simp only [Option.isSome_none, Option.isNone_none, Bool.and_true]
      simp only [Bool.false_eq_true, if_false]
      omega

end Lines

section Answers

variable {fs : FileSystem} {plan : Plan} {files : List FilePath} {path : Path}

/-- Counts are what the two kinds of plans that gather values answer with. -/
structure AnswersValues (c : Config) (fs : FileSystem) (plan : Plan) (files : List FilePath)
    (counts : Counts) : Prop where
  countDistinct :
    AlwaysAnswers c fs { plan with kind := .countDistinct } files (.countDistinct counts)
  distinct : AlwaysAnswers c fs { plan with kind := .distinct } files (.distinct counts.keys)

theorem answersValues (c : Config) (hfiles : ∀ p ∈ files, Readable fs p)
    (hpath : plan.aggregation = some path) :
    AnswersValues c fs plan files (.ofKeys (keysIn fs plan path files)) := by
  have hcounts : ∀ kind, countsIn fs { plan with kind := kind } files =
      .ofKeys (keysIn fs plan path files) := by
    intro kind
    rw [countsIn, hpath]
    rfl
  constructor
  · have h : AlwaysAnswers c fs { plan with kind := .countDistinct } files _ :=
      alwaysAnswers c hfiles (by simp) fun _ => ⟨path, hpath⟩
    rwa [completeAnswer, hcounts] at h
  · have h : AlwaysAnswers c fs { plan with kind := .distinct } files _ :=
      alwaysAnswers c hfiles (by simp) fun _ => ⟨path, hpath⟩
    rwa [completeAnswer, hcounts] at h

/-- Counts have an entry for each text under which some of the lines count, with their
number, in the order of the texts. -/
structure CountsLines (plan : Plan) (path : Path) (lines : List Bytes) (counts : Counts) : Prop where
  ascending : counts.keys.Pairwise (· < ·)
  entry : ∀ k n, (k, n) ∈ counts.entries ↔ 0 < n ∧ n = lines.countP (CountsAs plan path k)

theorem countsLines :
    CountsLines plan path (linesOf fs files) (.ofKeys (keysIn fs plan path files)) := by
  have hwf := Counts.wellFormed_ofKeys (keysIn fs plan path files)
  refine ⟨hwf.keys, fun k n => ?_⟩
  rw [hwf.mem_entries, Counts.get_ofKeys, count_keysIn]

/-- The counts of each file. -/
def countsOfFiles (fs : FileSystem) (plan : Plan) (path : Path) (files : List FilePath) :
    List Counts :=
  files.map fun p => (countingValues plan path).found (linesIn fs p)

theorem addAll_countsOfFiles (hpath : plan.aggregation = some path) {es : List (String × Nat)}
    (h : es.Perm ((countsOfFiles fs plan path files).flatMap Counts.entries)) :
    Counts.empty.addAll es = .ofKeys (keysIn fs plan path files) := by
  have hmerged : (countsOfFiles fs plan path files).foldl .merge .empty = countsIn fs plan files :=
    merged_counts hpath
  rw [Counts.addAll_perm h, ← Counts.foldl_merge, hmerged, countsIn, hpath]
  rfl

/-- The counts of a field over readable files say how many lines count under each text; the
lines that do not count make up the rest of what a count with the same conditions says. They
depend on which lines there are, but neither on the order of the lines and the files nor on
the order in which the counts of the files, or their entries, are put together. -/
theorem values_counted (c : Config) {counter : Plan} (hfiles : ∀ p ∈ files, Readable fs p)
    (hpath : plan.aggregation = some path) (hcount : counter.kind = .count)
    (hfields : counter.fields = plan.fields) (hdates : counter.dates = plan.dates) :
    ∃ counts : Counts,
      CountsLines plan path (linesOf fs files) counts ∧
      AnswersValues c fs plan files counts ∧
      AlwaysAnswers c fs counter files (.count (total (counts.entries.map Prod.snd) +
        (linesOf fs files).countP (CountsNot plan path))) ∧
      (∀ (c' : Config) (fs' : FileSystem) (files' : List FilePath),
        (∀ p ∈ files', Readable fs' p) → (linesOf fs' files').Perm (linesOf fs files) →
          AnswersValues c' fs' plan files' counts) ∧
      (∀ maps : List Counts, maps.Perm (countsOfFiles fs plan path files) →
        maps.foldl .merge .empty = counts) ∧
      (∀ es : List (String × Nat),
        es.Perm ((countsOfFiles fs plan path files).flatMap Counts.entries) →
          Counts.empty.addAll es = counts) := by
  refine ⟨.ofKeys (keysIn fs plan path files), countsLines, answersValues c hfiles hpath, ?_, ?_, ?_,
    fun es => addAll_countsOfFiles hpath⟩
  · have hk : counter.kind ≠ .search := by simp [hcount]
    have h := alwaysAnswers c hfiles hk fun h => by simp [hcount] at h
    rwa [completeAnswer, hcount, length_recordsIn_congr hfields hdates, ← length_keysIn,
      ← Counts.total_ofKeys] at h
  · intro c' fs' files' hfiles' hperm
    have hkeys : (keysIn fs' plan path files').Perm (keysIn fs plan path files) := by
      rw [keysIn_eq, keysIn_eq]
      exact hperm.filterMap _
    rw [← Counts.ofKeys_perm hkeys]
    exact answersValues c' hfiles' hpath
  · intro maps hmaps
    rw [Counts.foldl_merge]
    exact addAll_countsOfFiles hpath (hmaps.flatMap_right _)

/-- A string, a number, a boolean, null, a line that is no record, and no value. -/
def mixedLines : Bytes :=
  encode "\x7b\"n\":\"1\"\x7d\n\x7b\"n\":1\x7d\n\x7b\"n\":true\x7d\n\x7b\"n\":null\x7d\nn\n\x7b\x7d"

def mixedValues : FileSystem where
  top := .directory [("log", .file mixedLines)]
  working := []

/-- The values of `n` in all records. -/
def allValues (kind : ResultKind) : Plan where
  sources := ["logs"]
  fields := []
  dates := []
  projections := []
  aggregation := some ⟨"n"⟩
  kind := kind

/-- The log is given twice. A number and a string of one text count as one. -/
theorem mixedValues_counted :
    run ⟨⟨"/"⟩, 1, false, 1⟩ mixedValues (allValues .countDistinct) [theLog, theLog] false =
      .ok (.countDistinct ⟨[("1", 4), ("true", 2)]⟩) ∧
    run ⟨⟨"/"⟩, 1, false, 1⟩ mixedValues (allValues .distinct) [theLog, theLog] false =
      .ok (.distinct ["1", "true"]) ∧
    run ⟨⟨"/"⟩, 1, false, 1⟩ mixedValues (allValues .count) [theLog, theLog] false =
      .ok (.count 10) := by
  have hread : ∀ p ∈ [theLog, theLog], Readable mixedValues p := by
    intro p hp
    obtain rfl : p = theLog := by simpa using hp
    exact ⟨_, rfl⟩
  have hpath : (allValues .countDistinct).aggregation = some ⟨"n"⟩ := rfl
  have hkind : (allValues .count).kind = .count := rfl
  obtain ⟨counts, -, hvalues, hcount, -, hmerge, -⟩ :=
    values_counted ⟨⟨"/"⟩, 1, false, 1⟩ hread hpath hkind rfl rfl
  have hmerged : (countsOfFiles mixedValues (allValues .countDistinct) ⟨"n"⟩
      [theLog, theLog]).foldl Counts.merge Counts.empty = ⟨[("1", 4), ("true", 2)]⟩ := by
    decide +kernel
  have hnot : (linesOf mixedValues [theLog, theLog]).countP
      (CountsNot (allValues .countDistinct) ⟨"n"⟩) = 4 := by decide +kernel
  obtain rfl := hmerged.symm.trans (hmerge _ (List.Perm.refl _))
  rw [hnot] at hcount
  exact ⟨hvalues.countDistinct.inTurn, hvalues.distinct.inTurn, hcount.inTurn⟩

end Answers

end LogQuery.Engine
