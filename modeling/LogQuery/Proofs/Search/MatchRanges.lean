import Mathlib.Algebra.Group.Nat.Defs
import Mathlib.Data.List.Basic
import Mathlib.Data.List.Induction
import Mathlib.Data.List.Perm.Subperm
import Mathlib.Tactic.Choose
import LogQuery.Search.MatchRanges

/-!
# What match ranges hold

Recorded in ascending order, line numbers become intervals that are in order and
apart from each other, that cover exactly the recorded numbers, and among which
the binary search finds the right one. No fewer intervals cover the same numbers.
Of numbers of 64 bits, nothing that recording computes needs more than 64 bits.
-/

namespace LogQuery.Search.MatchRanges

/-- Intervals in ascending order with at least one number missing between two of
them, so that no fewer intervals would do. -/
structure Separated (rs : List (Nat × Nat)) : Prop where
  ordered : ∀ r ∈ rs, r.1 ≤ r.2
  gaps : rs.Pairwise fun a b => a.2 + 1 < b.1

/-- Whether some interval has a number. -/
def Covers (rs : List (Nat × Nat)) (n : Nat) : Prop := ∃ r ∈ rs, r.1 ≤ n ∧ n ≤ r.2

theorem Separated.gap_of_lt {rs : List (Nat × Nat)} (hs : Separated rs) {i j : Nat}
    {a b : Nat × Nat} (hij : i < j) (ha : rs[i]? = some a) (hb : rs[j]? = some b) :
    a.2 + 1 < b.1 := by
  obtain ⟨hi, rfl⟩ := List.getElem?_eq_some_iff.mp ha
  obtain ⟨hj, rfl⟩ := List.getElem?_eq_some_iff.mp hb
  exact List.pairwise_iff_getElem.mp hs.gaps i j hi hj hij

/-- The number after an interval is missing. -/
theorem Separated.not_covers_succ {rs : List (Nat × Nat)} (hs : Separated rs) {a : Nat × Nat}
    (ha : a ∈ rs) : ¬ Covers rs (a.2 + 1) := by
  rintro ⟨b, hb, hfrom, hto⟩
  obtain ⟨i, hi⟩ := List.mem_iff_getElem?.mp ha
  obtain ⟨j, hj⟩ := List.mem_iff_getElem?.mp hb
  rcases Nat.lt_trichotomy i j with hlt | rfl | hlt
  · have hg := hs.gap_of_lt hlt hi hj
    omega
  · obtain rfl := Option.some.inj (hi.symm.trans hj)
    omega
  · have hg := hs.gap_of_lt hlt hj hi
    have ho := hs.ordered a ha
    omega

/-- No fewer intervals agree with separated ones on the numbers below a bound of the latter. -/
theorem Separated.length_le {rs others : List (Nat × Nat)} {bound : Nat} (hs : Separated rs)
    (hb : ∀ r ∈ rs, r.2 < bound) (h : ∀ k < bound, Covers others k ↔ Covers rs k) :
    rs.length ≤ others.length := by
  have hstart : ∀ r ∈ rs, ∃ o ∈ others, o.1 ≤ r.1 ∧ r.1 ≤ o.2 := by
    intro r hr
    have ho := hs.ordered r hr
    exact (h r.1 (Nat.lt_of_le_of_lt ho (hb r hr))).mpr ⟨r, hr, Nat.le_refl _, ho⟩
  choose! home hmem hfrom hto using hstart
  -- An interval with the starts of two would also have the number that is missing between them.
  have hnodup : (rs.map home).Nodup := by
    refine List.pairwise_map.mpr (hs.gaps.imp_of_mem ?_)
    intro a b ha hb' hgap heq
    have hlow := hfrom a ha
    have hhigh := hto b hb'
    have hoa := hs.ordered a ha
    have hob := hs.ordered b hb'
    have hbelow := hb b hb'
    rw [heq] at hlow
    have hcov : Covers others (a.2 + 1) := ⟨home b, hmem b hb', by omega, by omega⟩
    exact hs.not_covers_succ ha ((h (a.2 + 1) (by omega)).mp hcov)
  have hsub : rs.map home ⊆ others := by
    intro o ho
    obtain ⟨r, hr, rfl⟩ := List.mem_map.mp ho
    exact hmem r hr
  calc rs.length = (rs.map home).length := (List.length_map home).symm
    _ ≤ others.length := (List.subperm_of_subset hnodup hsub).length_le

theorem toList_of_back? {m : MatchRanges} {r : Nat × Nat} (h : m.ranges.back? = some r) :
    m.ranges.toList = m.ranges.pop.toList ++ [r] := by
  rw [← Array.getLast?_toList] at h
  obtain ⟨init, hi⟩ := List.getLast?_eq_some_iff.mp h
  rw [Array.toList_pop, hi, List.dropLast_concat]

theorem lastLine?_eq (m : MatchRanges) : m.lastLine? = m.ranges.toList.getLast?.map Prod.snd := by
  rw [lastLine?, Array.getLast?_toList]

/-- Recording opens an interval, unless it makes the last one longer. -/
theorem toList_record (m : MatchRanges) (n : Nat) :
    ((∀ last, m.lastLine? = some last → n ≠ last + 1) ∧
      (m.record n).ranges.toList = m.ranges.toList ++ [(n, n)]) ∨
    ∃ init first last, m.ranges.toList = init ++ [(first, last)] ∧ n = last + 1 ∧
      (m.record n).ranges.toList = init ++ [(first, n)] := by
  cases hb : m.ranges.back? with
  | none =>
    left
    simp [record, lastLine?, hb]
  | some r =>
    obtain ⟨first, last⟩ := r
    by_cases hn : n = last + 1
    · right
      exact ⟨_, first, last, toList_of_back? hb, hn, by simp [record, hb, hn]⟩
    · left
      exact ⟨by simpa [lastLine?, hb] using hn, by simp [record, hb, hn]⟩

theorem lastLine?_record (m : MatchRanges) (n : Nat) : (m.record n).lastLine? = some n := by
  rw [lastLine?_eq]
  rcases toList_record m n with ⟨-, h⟩ | ⟨init, first, last, -, -, h⟩ <;> simp [h]

/-- Every interval ends at the last recorded number or before it. -/
theorem Separated.end_le_last {m : MatchRanges} (hs : Separated m.ranges.toList)
    {r : Nat × Nat} (hr : r ∈ m.ranges.toList) : ∃ last, m.lastLine? = some last ∧ r.2 ≤ last := by
  rw [lastLine?_eq]
  rcases List.eq_nil_or_concat' m.ranges.toList with hi | ⟨init, l, hi⟩
  · rw [hi] at hr
    cases hr
  · rw [hi] at hs hr ⊢
    refine ⟨l.2, by simp, ?_⟩
    rcases List.mem_append.mp hr with hr | hr
    · have hg := (List.pairwise_append.mp hs.gaps).2.2 r hr l (by simp)
      have ho := hs.ordered l (by simp)
      omega
    · exact Nat.le_of_eq (by rw [List.mem_singleton.mp hr])

theorem separated_record {m : MatchRanges} {n : Nat} (hs : Separated m.ranges.toList)
    (hn : ∀ last, m.lastLine? = some last → last < n) :
    Separated (m.record n).ranges.toList := by
  rcases toList_record m n with ⟨hopen, h⟩ | ⟨init, first, last, hi, rfl, h⟩
  · rw [h]
    constructor
    · intro r hr
      rcases List.mem_append.mp hr with hr | hr
      · exact hs.ordered r hr
      · exact Nat.le_of_eq (by rw [List.mem_singleton.mp hr])
    · refine List.pairwise_append.mpr ⟨hs.gaps, List.pairwise_singleton _ _, ?_⟩
      intro a ha b hb
      obtain ⟨last, hl, hle⟩ := hs.end_le_last ha
      have hlt := hn last hl
      have hne := hopen last hl
      rw [List.mem_singleton.mp hb]
      omega
  · rw [hi] at hs
    obtain ⟨hg, -, hlt⟩ := List.pairwise_append.mp hs.gaps
    rw [h]
    constructor
    · intro r hr
      rcases List.mem_append.mp hr with hr | hr
      · exact hs.ordered r (List.mem_append_left _ hr)
      · have ho := hs.ordered (first, last) (by simp)
        rw [List.mem_singleton.mp hr]
        omega
    · refine List.pairwise_append.mpr ⟨hg, List.pairwise_singleton _ _, ?_⟩
      intro a ha b hb
      rw [List.mem_singleton.mp hb]
      exact hlt a ha (first, last) (by simp)

theorem covers_concat (rs : List (Nat × Nat)) (r : Nat × Nat) (k : Nat) :
    Covers (rs ++ [r]) k ↔ Covers rs k ∨ (r.1 ≤ k ∧ k ≤ r.2) := by
  simp only [Covers, List.mem_append, List.mem_singleton, or_and_right, exists_or, exists_eq_left]

theorem covers_record {m : MatchRanges} {n : Nat} (hs : Separated m.ranges.toList) (k : Nat) :
    Covers (m.record n).ranges.toList k ↔ Covers m.ranges.toList k ∨ k = n := by
  rcases toList_record m n with ⟨-, h⟩ | ⟨init, first, last, hi, rfl, h⟩
  · rw [h, covers_concat]
    exact or_congr_right (by omega)
  · have ho := hs.ordered (first, last) (by simp [hi])
    rw [h, hi, covers_concat, covers_concat, or_assoc]
    exact or_congr_right (by omega)

theorem ofLines_concat (lines : List Nat) (n : Nat) :
    ofLines (lines ++ [n]) = (ofLines lines).record n := by
  simp [ofLines]

theorem lastLine?_ofLines (lines : List Nat) : (ofLines lines).lastLine? = lines.getLast? := by
  rcases List.eq_nil_or_concat' lines with rfl | ⟨init, n, rfl⟩
  · rfl
  · rw [ofLines_concat, lastLine?_record, List.getLast?_concat]

theorem separated_ofLines {lines : List Nat} (h : lines.Pairwise (· < ·)) :
    Separated (ofLines lines).ranges.toList := by
  induction lines using List.reverseRecOn with
  | nil => constructor <;> simp [ofLines, empty]
  | append_singleton init n ih =>
    obtain ⟨hi, -, hlt⟩ := List.pairwise_append.mp h
    rw [ofLines_concat]
    apply separated_record (ih hi)
    intro last hl
    rw [lastLine?_ofLines] at hl
    exact hlt last (List.mem_of_getLast? hl) n (by simp)

theorem covers_ofLines {lines : List Nat} (h : lines.Pairwise (· < ·)) (k : Nat) :
    Covers (ofLines lines).ranges.toList k ↔ k ∈ lines := by
  induction lines using List.reverseRecOn with
  | nil => simp [ofLines, empty, Covers]
  | append_singleton init n ih =>
    have hi := (List.pairwise_append.mp h).1
    rw [ofLines_concat, covers_record (separated_ofLines hi), ih hi, List.mem_append,
      List.mem_singleton]

/-- The intervals left of `lo` end before a line, and those from `hi` on do not. -/
structure Splits (rs : Array (Nat × Nat)) (line lo hi : Nat) : Prop where
  size : hi ≤ rs.size
  below : ∀ i r, i < lo → rs[i]? = some r → r.2 < line
  above : ∀ i r, hi ≤ i → rs[i]? = some r → line ≤ r.2

/-- Ends ascend with their indices. -/
theorem Separated.end_le_end {rs : Array (Nat × Nat)} (hs : Separated rs.toList) {i j : Nat}
    {a b : Nat × Nat} (hij : i ≤ j) (ha : rs[i]? = some a) (hb : rs[j]? = some b) : a.2 ≤ b.2 := by
  rw [← Array.getElem?_toList] at ha hb
  rcases Nat.lt_or_eq_of_le hij with hlt | rfl
  · have hg := hs.gap_of_lt hlt ha hb
    have ho := hs.ordered b (List.mem_of_getElem? hb)
    omega
  · obtain rfl := Option.some.inj (ha.symm.trans hb)
    exact Nat.le_refl _

/-- Enough halvings leave no interval undecided. -/
theorem splits_searchFrom {rs : Array (Nat × Nat)} (hs : Separated rs.toList) {line : Nat}
    (fuel lo hi : Nat) (h : Splits rs line lo hi) (hf : hi - lo < 2 ^ fuel) :
    ∀ i r, rs[i]? = some r → (r.2 < line ↔ i < searchFrom rs line fuel lo hi) := by
  induction fuel generalizing lo hi with
  | zero =>
    intro i r hr
    have hb := fun hi => h.below i r hi hr
    have ha := fun hi => h.above i r hi hr
    simp only [searchFrom]
    omega
  | succ fuel ih =>
    rw [searchFrom]
    by_cases hlt : lo < hi
    · have hsize := h.size
      have hmid : lo + (hi - lo) / 2 < rs.size := by omega
      obtain ⟨m, hm⟩ : ∃ m, rs[lo + (hi - lo) / 2]? = some m := ⟨_, Array.getElem?_eq_getElem hmid⟩
      obtain ⟨first, last⟩ := m
      simp only [hlt, if_true, hm]
      by_cases hl : last < line
      · rw [if_pos hl]
        refine ih _ _ ⟨h.size, ?_, h.above⟩ (by omega)
        intro i r hi' hr
        have he := hs.end_le_end (by omega) hr hm
        omega
      · rw [if_neg hl]
        refine ih _ _ ⟨by omega, h.below, ?_⟩ (by omega)
        intro i r hi' hr
        have he := hs.end_le_end hi' hm hr
        omega
    · rw [if_neg hlt]
      intro i r hr
      have hb := fun hi => h.below i r hi hr
      have ha := fun hi => h.above i r hi hr
      omega

/-- The binary search stops at the first interval that does not end before a line. -/
theorem lt_endingBefore {m : MatchRanges} (hs : Separated m.ranges.toList) (line i : Nat)
    {r : Nat × Nat} (hr : m.ranges[i]? = some r) : r.2 < line ↔ i < m.endingBefore line := by
  refine splits_searchFrom hs _ _ _ ⟨Nat.le_refl _, by omega, ?_⟩ ?_ i r hr
  · intro i r hi hr
    rw [Array.getElem?_eq_none hi] at hr
    cases hr
  · exact Nat.lt_log2_self

theorem contains_iff_covers {m : MatchRanges} (hs : Separated m.ranges.toList) (line : Nat) :
    m.contains line = true ↔ Covers m.ranges.toList line := by
  have hfirst := fun i r => lt_endingBefore hs line i (r := r)
  generalize he : m.endingBefore line = k at hfirst
  simp only [contains, he]
  constructor
  · intro h
    cases hk : m.ranges[k]? with
    | none => simp [hk] at h
    | some r =>
      simp only [hk, decide_eq_true_eq] at h
      have hle := (hfirst k r hk).not.mpr (by omega)
      exact ⟨r, by simpa using Array.mem_of_getElem? hk, h, by omega⟩
  · rintro ⟨r, hr, hfrom, hto⟩
    obtain ⟨i, hi⟩ := List.mem_iff_getElem?.mp hr
    rw [Array.getElem?_toList] at hi
    have hki := (hfirst i r hi).not.mp (by omega)
    have hlt : i < m.ranges.size := (Array.getElem?_eq_some_iff.mp hi).1
    obtain ⟨a, ha⟩ : ∃ a, m.ranges[k]? = some a := ⟨_, Array.getElem?_eq_getElem (by omega)⟩
    have hka := (hfirst k a ha).not.mpr (by omega)
    rcases Nat.lt_or_eq_of_le (Nat.le_of_not_lt hki) with hlt' | rfl
    · rw [← Array.getElem?_toList] at ha hi
      have hg := hs.gap_of_lt hlt' ha hi
      omega
    · simp only [hi, decide_eq_true_eq]
      exact hfrom

/-- Of ascending lines exactly the recorded ones are found again. -/
theorem contains_ofLines {lines : List Nat} (h : lines.Pairwise (· < ·)) (line : Nat) :
    (ofLines lines).contains line = true ↔ line ∈ lines :=
  (contains_iff_covers (separated_ofLines h) line).trans (covers_ofLines h line)

/-! ## Numbers of 64 bits -/

/-- The intervals of numbers of 64 bits, recorded one after another. -/
def ofWords (lines : List UInt64) : MatchRanges := ofLines (lines.map UInt64.toNat)

/-- A number that `record` may be given: it is above the end of the last interval, and the number
after that end, with which `record` compares it, is one of 64 bits. -/
def Recordable (m : MatchRanges) (line : UInt64) : Prop :=
  ∀ first last, m.ranges.back? = some (first, last) → last < line.toNat ∧ last + 1 < UInt64.size

/-- Numbers recorded without loss, in as few intervals as can be. -/
structure Recorded (lines : List UInt64) (m : MatchRanges) : Prop where
  recordable : ∀ init line rest, lines = init ++ line :: rest → Recordable (ofWords init) line
  separated : Separated m.ranges.toList
  bounded : ∀ r ∈ m.ranges.toList, r.2 < UInt64.size
  fewest : ∀ others, (∀ line : UInt64, Covers others line.toNat ↔ line ∈ lines) →
    m.ranges.size ≤ others.length
  last : m.lastLine? = lines.getLast?.map UInt64.toNat
  found : ∀ line : UInt64, m.contains line.toNat = true ↔ line ∈ lines

section Words

variable {lines : List UInt64}

theorem pairwise_toNat (h : lines.Pairwise (· < ·)) : (lines.map UInt64.toNat).Pairwise (· < ·) :=
  List.pairwise_map.mpr (h.imp UInt64.lt_iff_toNat_lt.mp)

theorem toNat_mem_map (line : UInt64) : line.toNat ∈ lines.map UInt64.toNat ↔ line ∈ lines :=
  List.mem_map_of_injective fun _ _ => UInt64.toNat_inj.mp

theorem covers_ofWords (h : lines.Pairwise (· < ·)) (line : UInt64) :
    Covers (ofWords lines).ranges.toList line.toNat ↔ line ∈ lines :=
  (covers_ofLines (pairwise_toNat h) _).trans (toNat_mem_map line)

theorem end_lt_size (h : lines.Pairwise (· < ·)) {r : Nat × Nat}
    (hr : r ∈ (ofWords lines).ranges.toList) : r.2 < UInt64.size := by
  have ho := (separated_ofLines (pairwise_toNat h)).ordered r hr
  have hmem := (covers_ofLines (pairwise_toNat h) r.2).mp ⟨r, hr, ho, Nat.le_refl _⟩
  obtain ⟨line, -, hline⟩ := List.mem_map.mp hmem
  rw [← hline]
  exact line.toNat_lt_size

theorem size_ofWords_le (h : lines.Pairwise (· < ·)) {others : List (Nat × Nat)}
    (ho : ∀ line : UInt64, Covers others line.toNat ↔ line ∈ lines) :
    (ofWords lines).ranges.size ≤ others.length := by
  rw [← Array.length_toList]
  refine (separated_ofLines (pairwise_toNat h)).length_le (fun _ => end_lt_size h) ?_
  intro k hk
  have hword : (UInt64.ofNat k).toNat = k := UInt64.toNat_ofNat_of_lt' hk
  have hiff := (ho (UInt64.ofNat k)).trans (covers_ofWords h (UInt64.ofNat k)).symm
  rwa [hword] at hiff

theorem lastLine?_ofWords (lines : List UInt64) :
    (ofWords lines).lastLine? = lines.getLast?.map UInt64.toNat := by
  rw [ofWords, lastLine?_ofLines, List.getLast?_map]

theorem recordable_ofWords {init rest : List UInt64} {line : UInt64}
    (h : (init ++ line :: rest).Pairwise (· < ·)) : Recordable (ofWords init) line := by
  intro first last hb
  -- The end of the last interval is the number recorded before this one.
  have hl : (ofWords init).lastLine? = some last := by rw [lastLine?, hb, Option.map_some]
  rw [lastLine?_ofWords] at hl
  obtain ⟨before, hbefore, rfl⟩ := Option.map_eq_some_iff.mp hl
  have hlt : before < line :=
    (List.pairwise_append.mp h).2.2 before (List.mem_of_getLast? hbefore) line (by simp)
  have hlt' := UInt64.lt_iff_toNat_lt.mp hlt
  have hsize := line.toNat_lt_size
  exact ⟨hlt', by omega⟩

/-- **What ascending lines leave behind.** Numbers of 64 bits that ascend are recorded without
leaving the 64 bits. Their intervals are in order, apart from each other and as few as can be, the
last one ends at the last number, and the search in them finds the recorded numbers alone. -/
theorem ascending_recorded (h : lines.Pairwise (· < ·)) : Recorded lines (ofWords lines) where
  recordable _ _ _ heq := recordable_ofWords (heq ▸ h)
  separated := separated_ofLines (pairwise_toNat h)
  bounded _ := end_lt_size h
  fewest _ := size_ofWords_le h
  last := lastLine?_ofWords lines
  found line := (contains_ofLines (pairwise_toNat h) _).trans (toNat_mem_map line)

/-- A gap of one line, and the two greatest numbers. -/
theorem ascending_recorded_greatest :
    ([0, 1, 3, 18446744073709551614, 18446744073709551615] : List UInt64).Pairwise (· < ·) ∧
    Recorded [0, 1, 3, 18446744073709551614, 18446744073709551615]
      ⟨#[(0, 1), (3, 3), (18446744073709551614, 18446744073709551615)]⟩ := by
  have h : ([0, 1, 3, 18446744073709551614, 18446744073709551615] : List UInt64).Pairwise
      (· < ·) := by decide
  exact ⟨h, ascending_recorded h⟩

end Words

end LogQuery.Search.MatchRanges
