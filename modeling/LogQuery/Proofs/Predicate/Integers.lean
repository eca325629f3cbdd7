import LogQuery.Predicate.Field
import LogQuery.Proofs.Decimal.Monotone
import LogQuery.Proofs.Json.Numbers

/-!
# Comparing integers

An integer of a condition has 64 bits with a sign, one of a record may also have 64
bits without. What has a sign is compared as it is. What needs the last bit is compared
after rounding, where the nearest integers on both sides of `2 ^ 63` meet: they are
taken for equal, and every other pair is compared as the integers are.
-/

namespace LogQuery.Predicate

open LogQuery.Json LogQuery.Record LogQuery.Decimal LogQuery.Decimal.Binary64

/-- How two integers stand to each other. -/
def Comparison.Relates : Comparison → Int → Int → Prop
  | .eq, m, n => m = n
  | .ne, m, n => m ≠ n
  | .gt, m, n => n < m
  | .ge, m, n => n ≤ m
  | .lt, m, n => m < n
  | .le, m, n => m ≤ n

theorem holds_compare (c : Comparison) (m n : Int) : c.holds (compare m n) = true ↔ c.Relates m n := by
  cases c <;> simp [Comparison.holds, Comparison.Relates, Int.compare_eq_lt, Int.compare_eq_gt]

instance (c : Comparison) (m n : Int) : Decidable (c.Relates m n) :=
  decidable_of_iff _ (holds_compare c m n)

/-- An integer of a record and one of a condition that are both rounded to `2 ^ 63`. -/
def Merged (m n : Int) : Prop :=
  9223372036854775808 ≤ m ∧ m ≤ 9223372036854776832 ∧ 9223372036854775296 ≤ n

instance (m n : Int) : Decidable (Merged m n) :=
  inferInstanceAs (Decidable (_ ∧ _ ∧ _))

section Rounded

variable {m n : Int}

/-- The integers around `2 ^ 63` that are rounded to it, and the first ones that are not. -/
theorem key_ofInt_around :
    (ofInt 9223372036854775296).key = (ofInt 9223372036854776832).key ∧
    (ofInt 9223372036854775295).key < (ofInt 9223372036854775808).key ∧
    (ofInt 9223372036854775808).key < (ofInt 9223372036854776833).key := by
  decide +kernel

theorem key_ofInt_merged (hm : m.natAbs ≤ wordSize) (hn : n.natAbs ≤ wordSize) (hlt : n < m)
    (h : Merged m n) : (ofInt m).key = (ofInt n).key := by
  obtain ⟨-, hhigh, hlow⟩ := h
  apply le_antisymm
  · calc (ofInt m).key ≤ (ofInt 9223372036854776832).key := key_ofInt_mono hm (by decide) hhigh
      _ = (ofInt 9223372036854775296).key := key_ofInt_around.1.symm
      _ ≤ (ofInt n).key := key_ofInt_mono (by decide) hn hlow
  · exact key_ofInt_mono hn hm hlt.le

theorem key_ofInt_apart (hm : m.natAbs ≤ wordSize) (hn : n.natAbs ≤ wordSize)
    (hlow : n < 9223372036854775808) (hhigh : 9223372036854775808 ≤ m) (h : ¬ Merged m n) :
    (ofInt n).key < (ofInt m).key := by
  unfold Merged at h
  by_cases hn' : n ≤ 9223372036854775295
  · calc (ofInt n).key ≤ (ofInt 9223372036854775295).key := key_ofInt_mono hn (by decide) hn'
      _ < (ofInt 9223372036854775808).key := key_ofInt_around.2.1
      _ ≤ (ofInt m).key := key_ofInt_mono (by decide) hm hhigh
  · calc (ofInt n).key ≤ (ofInt 9223372036854775808).key := key_ofInt_mono hn (by decide) hlow.le
      _ < (ofInt 9223372036854776833).key := key_ofInt_around.2.2
      _ ≤ (ofInt m).key := key_ofInt_mono (by decide) hm (by omega)

/-- Integers are compared as they are, unless they are merged. -/
theorem compareToInt_integer (hm : InRange m) (hn : isInt64 n = true) :
    compareToInt (.integer m) n = if Merged m n then .eq else compare m n := by
  have hn' : -9223372036854775808 ≤ n ∧ n < 9223372036854775808 := by simpa [isInt64] using hn
  obtain ⟨hmlow, hmhigh⟩ := hm
  unfold signBit at hmlow
  simp only [compareToInt]
  by_cases hsigned : isInt64 m = true
  · have hm' : -9223372036854775808 ≤ m ∧ m < 9223372036854775808 := by simpa [isInt64] using hsigned
    have hapart : ¬ Merged m n := by
      unfold Merged
      omega
    rw [if_pos hsigned, if_neg hapart]
  · have hm' : 9223372036854775808 ≤ m := by
      simp only [isInt64, Bool.and_eq_true, decide_eq_true_eq, not_and, not_lt] at hsigned
      exact hsigned (by omega)
    have hmword : m.natAbs ≤ wordSize := by omega
    have hnword : n.natAbs ≤ wordSize := by
      unfold wordSize
      omega
    rw [if_neg hsigned]
    change compare (ofInt m).key (ofInt n).key = _
    split
    next hmerged =>
      exact Int.compare_eq_eq.mpr (key_ofInt_merged hmword hnword (by omega) hmerged)
    next hapart =>
      rw [Int.compare_eq_gt.mpr (key_ofInt_apart hmword hnword hn'.2 hm' hapart)]
      exact (Int.compare_eq_gt.mpr (by omega)).symm

end Rounded

/-- **How integers are compared.** An integer of a record stands to one of a condition as
the two integers do, and is in a list as an integer is, except that two which are rounded
to `2 ^ 63` are taken for equal. -/
theorem integers_compared {m n : Int} {ns : List Int} (hm : InRange m) (hn : isInt64 n = true)
    (hns : ∀ k ∈ ns, isInt64 k = true) (path : Path) (label : String) :
    (∀ c : Comparison, (FieldCondition.mk path label (.compare c) (.int n)).accepts
        (.number (.integer m)) = true ↔
      if Merged m n then c.Relates n n else c.Relates m n) ∧
    ((FieldCondition.mk path label .oneOf (.intSet ns)).accepts (.number (.integer m)) = true ↔
      ∃ k ∈ ns, m = k ∨ Merged m k) := by
  constructor
  · intro c
    have haccepts : (FieldCondition.mk path label (.compare c) (.int n)).accepts
        (.number (.integer m)) = c.holds (compareToInt (.integer m) n) := by
      simp [FieldCondition.accepts, Operand.accepts, Operator.holds]
    rw [haccepts, compareToInt_integer hm hn]
    split
    · rw [← holds_compare, Int.compare_eq_eq.mpr rfl]
    · exact holds_compare c m n
  · have haccepts : (FieldCondition.mk path label .oneOf (.intSet ns)).accepts
        (.number (.integer m)) = ns.any fun k => compareToInt (.integer m) k == .eq := by
      simp [FieldCondition.accepts, Operand.accepts]
    rw [haccepts, List.any_eq_true]
    refine exists_congr fun k => and_congr_right fun hk => ?_
    rw [beq_iff_eq, compareToInt_integer hm (hns k hk)]
    split
    next hmerged => simp [hmerged]
    next hapart => simp [hapart]

/-- Next to the integers that are merged the comparison is exact. -/
theorem integers_compared_apart : InRange 9223372036854775808 ∧
    isInt64 9223372036854775295 = true ∧
    (FieldCondition.mk ⟨"n"⟩ "n" (.compare .gt) (.int 9223372036854775295)).accepts
      (.number (.integer 9223372036854775808)) = true ∧
    (FieldCondition.mk ⟨"n"⟩ "n" .oneOf (.intSet [9223372036854775295])).accepts
      (.number (.integer 9223372036854775808)) ≠ true := by
  have hm : InRange 9223372036854775808 := ⟨by decide, by decide⟩
  have hn : isInt64 9223372036854775295 = true := by decide
  obtain ⟨compared, listed⟩ :=
    integers_compared hm hn (List.forall_mem_singleton.mpr hn) ⟨"n"⟩ "n"
  exact ⟨hm, hn, (compared .gt).mpr (by decide), fun h => absurd (listed.mp h) (by decide)⟩

/-- The largest integer of a condition equals the next one, which is no such integer. -/
theorem largest_equals_next : isInt64 9223372036854775807 = true ∧ InRange 9223372036854775808 ∧
    (FieldCondition.mk ⟨"n"⟩ "n" (.compare .eq) (.int 9223372036854775807)).accepts
      (.number (.integer 9223372036854775808)) = true ∧
    (9223372036854775808 : Int) ≠ 9223372036854775807 := by
  exact ⟨by decide, ⟨by decide, by decide⟩, by decide +kernel, by decide⟩

end LogQuery.Predicate
