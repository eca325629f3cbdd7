import LogQuery.Proofs.Engine.Limits
import LogQuery.Proofs.Engine.Values
import LogQuery.Proofs.Hub.Framing

/-!
# Values on lines of their own

The command line prints each of the distinct values of a field followed by a line feed, as it
prints the records of a search. But a value is the text of a string as it is, not as JSON
writes it, so a value may hold line feeds itself, and then it is printed on several lines.
-/

namespace LogQuery.Engine

open LogQuery.Text LogQuery.Store LogQuery.Record LogQuery.Json

variable {s : Settings} {fs : FileSystem} {plan : Plan} {path : Path} {files : List FilePath}
  {text k : String} {keys : List String} {line : Bytes} {v : Value}

/-- A line holds a record that matches, and its first value there is a string with a line
feed. -/
def CountsBroken (plan : Plan) (path : Path) (line : Bytes) : Prop :=
  ∃ record s, Record.ofLine? line = some record ∧ plan.accepts record = true ∧
    path.value? record = some (.string s) ∧ '\n' ∈ s.toList

/-- The text of a value has a line feed only if the value is a string. -/
theorem eq_string_of_lineFeed (hv : v.WellFormed) (h : HasText v k) (hk : '\n' ∈ k.toList) :
    v = .string k := by
  cases h with
  | string s => rfl
  | number n =>
    rw [Value.text, String.toList_ofList] at hk
    exact absurd hk (not_mem_of_printable (printable_chars hv) (by decide))
  | bool b =>
    rw [← text_bool, Value.text, String.toList_ofList] at hk
    exact absurd hk (not_mem_of_printable (printable_chars hv) (by decide))

theorem countsBroken_iff :
    CountsBroken plan path line ↔ ∃ k, CountsAs plan path k line ∧ '\n' ∈ k.toList := by
  constructor
  · rintro ⟨record, s, hline, haccepts, hvalue, hs⟩
    exact ⟨s, ⟨record, _, hline, haccepts, hvalue, .string s⟩, hs⟩
  · rintro ⟨k, ⟨record, v, hline, haccepts, hvalue, htext⟩, hk⟩
    have hv : v.WellFormed := by
      obtain ⟨_, -, hparse⟩ := exists_text_of_ofLine? hline
      exact wellFormed_of_value? (wellFormed_of_parse? hparse).1 hvalue
    obtain rfl := eq_string_of_lineFeed hv htext hk
    exact ⟨record, k, hline, haccepts, hvalue, hk⟩

theorem mem_keysIn :
    k ∈ keysIn fs plan path files ↔ ∃ line ∈ linesOf fs files, CountsAs plan path k line := by
  simp only [keysIn_eq, List.mem_filterMap, countsAs_iff]

theorem kind_completeAnswer : (completeAnswer fs plan files).kind = plan.kind := by
  unfold completeAnswer
  split <;> simp [Answer.kind, *]

theorem exists_run_of_query {a : Answer} (h : query s fs text = .ok a) :
    ∃ plan, Plan.ofQuery text = .ok plan ∧
      s.run fs plan (fs.filesOfPlan s.root plan) false = .ok a := by
  unfold query at h
  cases hplan : Plan.ofQuery text with
  | error e =>
    rw [hplan] at h
    cases h
  | ok plan =>
    rw [hplan] at h
    exact ⟨plan, rfl, h⟩

/-- A query that answers with distinct values gives those under which the lines of its files
count. -/
theorem distinct_of_query (h : query s fs text = .ok (.distinct keys)) : ∃ plan path,
    Plan.ofQuery text = .ok plan ∧ plan.aggregation = some path ∧
      keys = (Counts.ofKeys (keysIn fs plan path (fs.filesOfPlan s.root plan))).keys := by
  obtain ⟨plan, hplan, hsettings⟩ := exists_run_of_query h
  have hrun : run s.config fs plan (fs.filesOfPlan s.root plan) false = .ok (.distinct keys) :=
    (Settings.run_eq_ok hsettings).resolve_right (by simp)
  have hk : plan.kind ≠ .search := by
    intro hsearch
    rw [run, hsearch] at hrun
    cases hrun
  have hg : Gathers plan := by
    obtain ⟨q, select, hselect⟩ := Plan.exists_ofSelect hplan
    exact Plan.aggregation_of_ofSelect hselect
  have hanswer : answerUnder s.config fs plan (fs.filesOfPlan s.root plan) false
      (inTurn fs (fs.filesOfPlan s.root plan)) = some (.ok (.distinct keys)) := by
    rw [answerUnder_inTurn hk hg, hrun]
  obtain ⟨-, hcomplete⟩ := answerUnder_ok hk hg hanswer
  have hkind : plan.kind = .distinct := by
    rw [← kind_completeAnswer, ← hcomplete, Answer.kind]
  obtain ⟨path, hpath⟩ := hg (.inl hkind)
  refine ⟨plan, path, hplan, hpath, ?_⟩
  rw [completeAnswer, hkind] at hcomplete
  rw [Answer.distinct.inj hcomplete, countsIn, hpath]
  rfl

/-- The distinct values that a query answers with. -/
def distinctValues? : Except QueryError Answer → Option (List String)
  | .ok (.distinct keys) => some keys
  | _ => none

theorem distinctValues?_eq_some {r : Except QueryError Answer} :
    distinctValues? r = some keys ↔ r = .ok (.distinct keys) := by
  constructor
  · intro h
    match r, h with
    | .ok (.distinct _), rfl => rfl
  · rintro rfl
    rfl

end LogQuery.Engine

namespace LogQuery.Cli

open LogQuery.Text LogQuery.Store LogQuery.Engine

section Printing

variable {text query : String} {input : Bytes} {root : FilePath} {maxParallelism : Nat}
  {skipSort : Bool} {fs : FileSystem} {keys : List String}

theorem run_distinct (hquery : queryText text input = .ok query)
    (hanswer : Engine.query ⟨root, maxParallelism, skipSort, defaultSearchBuffer⟩ fs query =
      .ok (.distinct keys)) :
    (Command.query text root maxParallelism skipSort).run fs input = .success (unlines keys) := by
  change runQuery _ fs text input = _
  rw [runQuery, hquery]
  simp only [hanswer]
  rfl

/-- **Values on lines.** A query for distinct values that succeeds prints them in their order,
each cut at its own line feeds. What is printed has the values as its lines exactly if no
line that matches has a string with a line feed as its first value at the path. -/
theorem distinct_printed (hquery : queryText text input = .ok query)
    (hanswer : Engine.query ⟨root, maxParallelism, skipSort, defaultSearchBuffer⟩ fs query =
      .ok (.distinct keys)) :
    let outcome := (Command.query text root maxParallelism skipSort).run fs input
    outcome.code = 0 ∧ outcome.errors = "" ∧ ∃ plan path lines,
      Plan.ofQuery query = .ok plan ∧ plan.aggregation = some path ∧
      splitOn '\n' outcome.output.toList = lines ++ [[]] ∧
      lines = keys.flatMap (fun k => splitOn '\n' k.toList) ∧
      (lines = keys.map String.toList ↔
        ¬ ∃ line ∈ linesOf fs (fs.filesOfPlan root plan), CountsBroken plan path line) := by
  intro outcome
  have houtcome : outcome = .success (unlines keys) := run_distinct hquery hanswer
  obtain ⟨plan, path, hplan, hpath, hkeys⟩ := distinct_of_query hanswer
  rw [houtcome]
  refine ⟨rfl, rfl, plan, path, _, hplan, hpath, Hub.splitOn_unlines_flatMap keys,
    List.flatMap_map .., ?_⟩
  rw [flatMap_splitOn_eq_iff, List.forall_mem_map]
  simp only [countsBroken_iff, hkeys, Counts.mem_keys_ofKeys, mem_keysIn]
  constructor
  · rintro h ⟨line, hline, k, hcounts, hk⟩
    exact h k ⟨line, hline, hcounts⟩ hk
  · rintro h k ⟨line, hline, hcounts⟩ hk
    exact h ⟨line, hline, k, hcounts, hk⟩

end Printing

/-- A log with a string of two lines in one field and values without line feeds in another. -/
def twoFields : FileSystem where
  top := .directory [("logs", .directory [("app", .directory [("2020-01-01", .directory [
    ("2020-01-01T00-00-00.log",
      .file (encode "\x7b\"a\":\"x\\ny\",\"b\":2\x7d\n\x7b\"b\":\"z\"\x7d\n"))])])])]
  working := []

/-- The query is on the standard input, with blanks around it. -/
theorem distinct_printed_fromInput :
    let input := encode " SELECT DISTINCT b FROM app\n"
    queryText "-" input = .ok "SELECT DISTINCT b FROM app" ∧
    Engine.query ⟨⟨defaultRoot⟩, 1, false, defaultSearchBuffer⟩ twoFields
      "SELECT DISTINCT b FROM app" = .ok (.distinct ["2", "z"]) ∧
    splitOn '\n' ((Command.query "-" ⟨defaultRoot⟩ 1 false).run twoFields input).output.toList =
      ["2", "z"].map String.toList ++ [[]] := by
  intro input
  have hquery : queryText "-" input = .ok "SELECT DISTINCT b FROM app" := by decide +kernel
  have hanswer : Engine.query ⟨⟨defaultRoot⟩, 1, false, defaultSearchBuffer⟩ twoFields
      "SELECT DISTINCT b FROM app" = .ok (.distinct ["2", "z"]) :=
    distinctValues?_eq_some.mp (by decide +kernel)
  obtain ⟨-, -, -, -, lines, -, -, hsplit, rfl, -⟩ := distinct_printed hquery hanswer
  exact ⟨hquery, hanswer, hsplit.trans (by decide +kernel)⟩

/-- A string of two lines is one value, and is printed on two lines. -/
theorem value_on_two_lines :
    let outcome := (Command.query "SELECT DISTINCT a FROM app" ⟨defaultRoot⟩ 1 false).run twoFields []
    Engine.query ⟨⟨defaultRoot⟩, 1, false, defaultSearchBuffer⟩ twoFields
      "SELECT DISTINCT a FROM app" = .ok (.distinct ["x\ny"]) ∧
    splitOn '\n' outcome.output.toList = ["x", "y"].map String.toList ++ [[]] ∧
    splitOn '\n' outcome.output.toList ≠ ["x\ny"].map String.toList ++ [[]] := by
  intro outcome
  have hanswer : Engine.query ⟨⟨defaultRoot⟩, 1, false, defaultSearchBuffer⟩ twoFields
      "SELECT DISTINCT a FROM app" = .ok (.distinct ["x\ny"]) :=
    distinctValues?_eq_some.mp (by decide +kernel)
  have houtcome : outcome = .success (unlines ["x\ny"]) := run_distinct rfl hanswer
  rw [houtcome]
  exact ⟨hanswer, by decide +kernel, by decide +kernel⟩

end LogQuery.Cli
