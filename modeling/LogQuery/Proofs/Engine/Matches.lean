import Mathlib.Data.List.Nodup
import LogQuery.Engine.Query
import LogQuery.Proofs.Engine.Counts
import LogQuery.Proofs.Engine.Scan
import LogQuery.Proofs.Search.MatchRanges

/-!
# The lines that match

What the visitors of counts, values and searches find on some lines. The ranges
that a search notes in a file decide which of its lines match: a number is in them
exactly when its line matches, and no line after the last number does.
-/

namespace LogQuery

/-- What a plan puts out for a line, if the line matches. -/
def Plan.outputOf? (plan : Plan) (line : Text.Bytes) : Option String :=
  (plan.matchLine? line).map (Record.output plan line)

theorem Plan.outputOf?_nil (plan : Plan) : plan.outputOf? [] = none := rfl

end LogQuery

namespace LogQuery.Engine

open LogQuery.Text LogQuery.Store LogQuery.Log LogQuery.Search LogQuery.Record

/-- The records on the lines that match, in the form in which they are sent. -/
def recordsOn (plan : Plan) (lines : List (Nat × Bytes)) : List String :=
  lines.filterMap fun l => (plan.matchLine? l.2).map (Record.output plan l.2)

/-- The records of some files, file by file and line by line. -/
def recordsIn (fs : FileSystem) (plan : Plan) (files : List FilePath) : List String :=
  files.flatMap fun p => recordsOn plan (linesIn fs p)

/-- The numbers of the lines that match. -/
def matching (plan : Plan) (lines : List (Nat × Bytes)) : List Nat :=
  (lines.filter fun l => plan.matchesLine l.2).map Prod.fst

/-- The texts under which the lines that match count. -/
def keysOn (plan : Plan) (path : Path) (lines : List (Nat × Bytes)) : List String :=
  lines.filterMap fun l => keyOf? plan path l.2

variable {plan : Plan}

theorem recordsOn_append (before after : List (Nat × Bytes)) :
    recordsOn plan (before ++ after) = recordsOn plan before ++ recordsOn plan after :=
  List.filterMap_append

theorem matching_append (before after : List (Nat × Bytes)) :
    matching plan (before ++ after) = matching plan before ++ matching plan after := by
  simp [matching]

theorem length_matching (lines : List (Nat × Bytes)) :
    (matching plan lines).length = (recordsOn plan lines).length := by
  induction lines with
  | nil => rfl
  | cons l lines ih =>
    cases h : plan.matchLine? l.2 <;>
      simpa [matching, recordsOn, Plan.matchesLine, h] using ih

theorem keysOn_append (path : Path) (before after : List (Nat × Bytes)) :
    keysOn plan path (before ++ after) = keysOn plan path before ++ keysOn plan path after :=
  List.filterMap_append

/-- Lines none of which matches hold no record to send. -/
theorem recordsOn_eq_nil {lines : List (Nat × Bytes)} :
    recordsOn plan lines = [] ↔ matching plan lines = [] := by
  rw [← List.length_eq_zero_iff, ← List.length_eq_zero_iff, length_matching]

/-- A plan matches as another one with the same conditions does. -/
theorem matchesLine_congr {p q : Plan} (hf : p.fields = q.fields) (hd : p.dates = q.dates) :
    p.matchesLine = q.matchesLine := by
  have ha : p.accepts = q.accepts := by
    funext record
    rw [Plan.accepts, Plan.accepts, hf, hd]
  funext line
  rw [Plan.matchesLine, Plan.matchesLine, Plan.matchLine?, Plan.matchLine?, ha]

section Visitors

theorem found_counting (lines : List (Nat × Bytes)) :
    (counting plan).found lines = (matching plan lines).length := by
  induction lines using List.reverseRecOn with
  | nil => rfl
  | append_singleton lines l ih =>
    rw [Visitor.found_concat, ih, matching_append, List.length_append]
    cases h : plan.matchesLine l.2 <;> simp [counting, matching, h]

theorem found_countingValues (path : Path) (lines : List (Nat × Bytes)) :
    (countingValues plan path).found lines = .ofKeys (keysOn plan path lines) := by
  induction lines using List.reverseRecOn with
  | nil => rfl
  | append_singleton lines l ih =>
    rw [Visitor.found_concat, ih, keysOn_append, Counts.ofKeys, Counts.ofKeys, List.foldl_append]
    cases h : keyOf? plan path l.2 <;> simp [countingValues, keysOn, h]

theorem found_noting (lines : List (Nat × Bytes)) :
    (noting plan).found lines = .ofLines (matching plan lines) := by
  induction lines using List.reverseRecOn with
  | nil => rfl
  | append_singleton lines l ih =>
    rw [Visitor.found_concat, ih, matching_append]
    cases h : plan.matchesLine l.2 with
    | false => simp [noting, matching, h]
    | true => simp [noting, matching, h, MatchRanges.ofLines_concat]

theorem records_noting (lines : List (Nat × Bytes)) : (noting plan).records lines = [] := by
  simp [Visitor.records, noting]

end Visitors

section Noted

variable {lines before after : List (Nat × Bytes)} {l : Nat × Bytes}

theorem matching_ascending (h : (lines.map Prod.fst).Pairwise (· < ·)) :
    (matching plan lines).Pairwise (· < ·) :=
  h.sublist (List.filter_sublist.map Prod.fst)

theorem contains_noted (h : (lines.map Prod.fst).Pairwise (· < ·)) (hl : l ∈ lines) :
    (MatchRanges.ofLines (matching plan lines)).contains l.1 = plan.matchesLine l.2 := by
  rw [Bool.eq_iff_iff, MatchRanges.contains_ofLines (matching_ascending h)]
  constructor
  · intro hm
    obtain ⟨l', hl', he⟩ := List.mem_map.mp hm
    obtain ⟨hmem, hmatch⟩ := List.mem_filter.mp hl'
    have hinj := List.inj_on_of_nodup_map (h.imp Nat.ne_of_lt) hmem hl he
    rwa [← hinj]
  · exact fun hm => List.mem_map_of_mem (List.mem_filter.mpr ⟨hl, hm⟩)

/-- After the last number no line matches. -/
theorem recordsOn_after_last {last : Nat} (h : (lines.map Prod.fst).Pairwise (· < ·))
    (hl : lines = before ++ l :: after)
    (hlast : (MatchRanges.ofLines (matching plan lines)).lastLine? = some last) (hgt : last < l.1) :
    recordsOn plan (l :: after) = [] := by
  rw [recordsOn_eq_nil, List.eq_nil_iff_forall_not_mem]
  intro n hn
  have hn' : n ∈ matching plan lines := by
    rw [hl, matching_append]
    exact List.mem_append_right _ hn
  have hle : n ≤ last := by
    have hasc : (matching plan lines).Pairwise (· < ·) := matching_ascending h
    rw [MatchRanges.lastLine?_ofLines] at hlast
    obtain ⟨ns, hns⟩ := List.getLast?_eq_some_iff.mp hlast
    rw [hns] at hn' hasc
    rcases List.mem_append.mp hn' with hn' | hn'
    · exact Nat.le_of_lt ((List.pairwise_append.mp hasc).2.2 n hn' last List.mem_cons_self)
    · exact Nat.le_of_eq (List.mem_singleton.mp hn')
  have hge : l.1 ≤ n := by
    obtain ⟨l', hl', rfl⟩ := List.mem_map.mp hn
    have hmem := List.mem_of_mem_filter hl'
    rw [hl, List.map_append, List.map_cons] at h
    have htail := (List.pairwise_append.mp h).2.1
    rcases List.mem_cons.mp hmem with rfl | hmem
    · exact Nat.le_refl _
    · exact Nat.le_of_lt (List.rel_of_pairwise_cons htail (List.mem_map_of_mem hmem))
  omega

theorem recordsOn_of_no_last
    (hlast : (MatchRanges.ofLines (matching plan lines)).lastLine? = none) :
    recordsOn plan lines = [] := by
  rw [MatchRanges.lastLine?_ofLines, List.getLast?_eq_none_iff] at hlast
  exact recordsOn_eq_nil.mpr hlast

end Noted

end LogQuery.Engine
