import LogQuery.Proofs.Compile.Membership
import LogQuery.Proofs.Compile.TimeLine

/-!
# The conditions on numbers

A number comes as an integer or as a double and so does a literal, and each pair is compared
in its own way: exactly, or after rounding one of the two. Still every number has one order to
every literal, by which all six comparisons judge it. So none falls between a comparison and
its complement, and IN and BETWEEN hold of what their comparisons hold of.
-/

namespace LogQuery.Compile

open LogQuery.Query LogQuery.Sql LogQuery.Predicate LogQuery.Record LogQuery.Json
open LogQuery.Decimal

variable {q : Marked} {e r low high : Expr} {p : Path} {text lowText highText : String}
  {c : Comparison} {list : List Expr} {texts : List String} {v : Value}

/-- Whether a comparison of a field with a literal is a condition that a value satisfies. -/
def Asks (q : Marked) (c : Comparison) (field literal : Expr) (v : Value) : Prop :=
  ∃ condition, Conditions.ofExpr q (.binary (.comparison c) field literal) =
    .ok (.ofField condition) ∧ condition.accepts v = true

/-- Six conditions that fit together on every number, and that no other value satisfies. -/
structure DivideNumbers (conditions : Comparison → FieldCondition) : Prop where
  numbers : ∀ n, Complementary fun c => (conditions c).accepts (.number n)
  others : ∀ v, (∀ n, v ≠ .number n) → ∀ c, (conditions c).accepts v = false

section Order

/-- All comparisons with a literal judge a number by one order. -/
theorem exists_numberOrder (h : IsNumberText text) : ∃ order : Number → Ordering,
    ∀ c v, Relates c text v ↔ ∃ n, v = .number n ∧ c.holds (order n) = true := by
  unfold IsNumberText at h
  unfold Relates
  cases hi : int64? text.toList with
  | some m => exact ⟨fun n => compareToInt n m, fun c v => Iff.rfl⟩
  | none =>
    obtain ⟨x, hx⟩ := Option.isSome_iff_exists.mp (h.resolve_left (by simp [hi]))
    refine ⟨fun n => compare n.toDouble x, fun c v => ?_⟩
    simp [hx, Extended.orderOf?]

theorem relates_integer {m : Int} (h : int64? text.toList = some m) :
    Relates .eq text v ↔ ∃ n, v = .number n ∧ compareToInt n m = .eq := by
  simp [Relates, h, Comparison.holds]

end Order

section Compiled

/-- A comparison of a field that is not the date with a number compiles to a condition
that a value satisfies exactly if it stands to the number so. -/
theorem exists_condition (field : Names q e p) (other : isDate p = false) (spelled : Spells r text)
    (h : IsNumberText text) (c : Comparison) : ∃ condition,
      Conditions.compare p c text = .ok (.ofField condition) ∧
      Conditions.ofExpr q (.binary (.comparison c) e r) = .ok (.ofField condition) ∧
      ∀ v, condition.accepts v = true ↔ Relates c text v := by
  obtain ⟨operand, ho⟩ := (Conditions.typedOperand_isOk_iff p c text).mpr (.inr (.inr h))
  have hcompare : Conditions.compare p c text = .ok (.ofField (.on p (.compare c) operand)) := by
    rw [Conditions.compare, other, ho]
    rfl
  refine ⟨_, hcompare, ?_, fun v => ?_⟩
  · simp only [Conditions.ofExpr, bind_eq_ok, field_eq_ok, literal_eq_ok]
    exact ⟨p, field, text, spelled, hcompare⟩
  · rw [← Conditions.accepts_typedOperand ho]
    simp [FieldCondition.accepts, FieldCondition.on]

theorem asks_iff (field : Names q e p) (other : isDate p = false) (spelled : Spells r text)
    (h : IsNumberText text) : Asks q c e r v ↔ Relates c text v := by
  obtain ⟨condition, -, hcompiled, haccepts⟩ := exists_condition field other spelled h c
  rw [← haccepts, Asks]
  constructor
  · rintro ⟨condition', hcompiled', hv⟩
    cases hcompiled.symm.trans hcompiled'
    exact hv
  · exact fun hv => ⟨condition, hcompiled, hv⟩

/-- The six comparisons with a number compile, and they divide the numbers between them. -/
theorem exists_divide (field : Names q e p) (other : isDate p = false) (spelled : Spells r text)
    (h : IsNumberText text) : ∃ conditions : Comparison → FieldCondition,
      (∀ c, Conditions.ofExpr q (.binary (.comparison c) e r) = .ok (.ofField (conditions c))) ∧
        DivideNumbers conditions := by
  obtain ⟨order, horder⟩ := exists_numberOrder h
  choose conditions _ hcompiled haccepts using exists_condition field other spelled h
  refine ⟨conditions, hcompiled, fun n => complementary_of_order (o := order n) fun c => ?_, ?_⟩
  · rw [Bool.eq_iff_iff, haccepts, horder]
    simp
  · intro v hv c
    rw [← Bool.not_eq_true, haccepts, horder]
    rintro ⟨n, rfl, -⟩
    exact hv n rfl

theorem mapM_literal (h : List.Forall₂ Spells list texts) : list.mapM (literal q) = .ok texts := by
  induction h with
  | nil => rfl
  | cons hs _ ih => simp only [List.mapM_cons, literal_eq_ok.mpr hs, ih]; rfl

/-- A list of integers holds of the numbers that one of its texts stands for. -/
theorem accepts_integers (integers : AllIntegers texts) (v : Value) :
    (FieldCondition.on p .oneOf (setOperand texts)).accepts v = true ↔
      ∃ s ∈ texts, Relates .eq s v := by
  have hrelates : (∃ s ∈ texts, Relates .eq s v) ↔
      ∃ s ∈ texts, ∃ m, int64? s.toList = some m ∧ ∃ n, v = .number n ∧ compareToInt n m = .eq := by
    refine exists_congr fun s => and_congr_right fun hs => ?_
    obtain ⟨m, hread⟩ := Option.isSome_iff_exists.mp (integers s hs)
    simp [relates_integer hread, hread]
  rw [hrelates, setOperand_integers integers]
  cases v with
  | number n =>
    simp only [accepts_intSet_number, List.any_eq_true, List.mem_filterMap, beq_iff_eq]
    constructor
    · rintro ⟨m, ⟨s, hs, hread⟩, heq⟩
      exact ⟨s, hs, m, hread, n, rfl, heq⟩
    · rintro ⟨s, hs, m, hread, _, ⟨⟩, heq⟩
      exact ⟨m, ⟨s, hs, hread⟩, heq⟩
  | _ => simp [FieldCondition.accepts, FieldCondition.on, Operand.accepts]

/-- An element of a list is equal to what the field is equal to when it is asked for alone. -/
theorem exists_asks_iff (field : Names q e p) (other : isDate p = false)
    (spelled : List.Forall₂ Spells list texts) (integers : AllIntegers texts) :
    (∃ r ∈ list, Asks q .eq e r v) ↔ ∃ s ∈ texts, Relates .eq s v := by
  induction spelled with
  | nil => simp
  | cons hs _ ih =>
    obtain ⟨hfirst, hrest⟩ := List.forall_mem_cons.mp integers
    simp only [List.mem_cons, exists_eq_or_imp]
    rw [asks_iff field other hs (.inl hfirst), ih hrest]

/-- A list of integers holds of what is equal to one of its elements. -/
theorem exists_oneOf (field : Names q e p) (other : isDate p = false)
    (spelled : List.Forall₂ Spells list texts) (integers : AllIntegers texts) : ∃ condition,
      Conditions.ofExpr q (.inList false e list) = .ok (.ofField condition) ∧
      ∀ v, condition.accepts v = true ↔ ∃ r ∈ list, Asks q .eq e r v := by
  refine ⟨.on p .oneOf (setOperand texts), ?_, fun v => ?_⟩
  · simp only [Conditions.ofExpr, bind_eq_ok, field_eq_ok]
    exact ⟨p, field, texts, mapM_literal spelled, by rw [Conditions.oneOf, other]; rfl⟩
  · rw [accepts_integers integers, exists_asks_iff field other spelled integers]

/-- A range holds of the numbers that are neither below nor above it. -/
theorem exists_between (field : Names q e p) (other : isDate p = false)
    (below : Spells low lowText) (above : Spells high highText) (hlow : IsNumberText lowText)
    (hhigh : IsNumberText highText) : ∃ lower upper,
      Conditions.ofExpr q (.between false e low high) = .ok ⟨[lower, upper], []⟩ ∧
      ∀ n, (lower.accepts (.number n) = true ∧ upper.accepts (.number n) = true ↔
        ¬ Asks q .lt e low (.number n) ∧ ¬ Asks q .gt e high (.number n)) := by
  obtain ⟨lower, hlower, -, hlowerAccepts⟩ := exists_condition field other below hlow .ge
  obtain ⟨upper, hupper, -, hupperAccepts⟩ := exists_condition field other above hhigh .le
  refine ⟨lower, upper, ?_, fun n => ?_⟩
  · simp only [Conditions.ofExpr, bind_eq_ok, field_eq_ok, literal_eq_ok, pure_eq_ok]
    exact ⟨p, field, _, below, _, above, _, hlower, _, hupper, rfl⟩
  · obtain ⟨lowOrder, hlowOrder⟩ := exists_numberOrder hlow
    obtain ⟨highOrder, hhighOrder⟩ := exists_numberOrder hhigh
    rw [hlowerAccepts, hupperAccepts, asks_iff field other below hlow,
      asks_iff field other above hhigh]
    simp [hlowOrder, hhighOrder, Comparison.holds]

end Compiled

/-- **Comparisons of numbers.** Of a field that is not the date, the six comparisons with one
number divide all numbers between them and hold of nothing else. IN holds of what is equal to
one of its integers, and both conditions of BETWEEN hold of a number that is neither below nor
above the range. -/
theorem comparisons_divide_numbers (field : Names q e p) (other : isDate p = false) :
    (∀ r text, Spells r text → IsNumberText text → ∃ conditions : Comparison → FieldCondition,
      (∀ c, Conditions.ofExpr q (.binary (.comparison c) e r) = .ok (.ofField (conditions c))) ∧
        DivideNumbers conditions) ∧
    (∀ list texts, List.Forall₂ Spells list texts → AllIntegers texts → ∃ condition,
      Conditions.ofExpr q (.inList false e list) = .ok (.ofField condition) ∧
      ∀ v, condition.accepts v = true ↔ ∃ r ∈ list, Asks q .eq e r v) ∧
    (∀ low lowText high highText, Spells low lowText → IsNumberText lowText →
      Spells high highText → IsNumberText highText → ∃ lower upper,
        Conditions.ofExpr q (.between false e low high) = .ok ⟨[lower, upper], []⟩ ∧
        ∀ n, (lower.accepts (.number n) = true ∧ upper.accepts (.number n) = true ↔
          ¬ Asks q .lt e low (.number n) ∧ ¬ Asks q .gt e high (.number n))) := by
  refine ⟨?_, ?_, ?_⟩
  · exact fun r text => exists_divide field other
  · exact fun list texts => exists_oneOf field other
  · exact fun low lowText high highText below hlow above hhigh =>
      exists_between field other below above hlow hhigh

/-- A range with a double at its end holds of the integer that is rounded to it, and a list
with the largest integer holds of the next one. -/
theorem comparisons_divide_numbers_rounded :
    let q := Marked.ofChars []
    let n : Expr := .ident ⟨"n", none⟩
    let zero : Expr := .literal (.number "0" false)
    let largest : Expr := .literal (.number "9223372036854775807" false)
    let beyond : Expr := .nested (.literal (.number "9223372036854775807.5" false))
    Names q n ⟨"n"⟩ ∧ isDate ⟨"n"⟩ = false ∧
    (∃ condition, Conditions.ofExpr q (.inList false n [zero, largest]) = .ok (.ofField condition) ∧
      condition.accepts (.number (.integer 9223372036854775808)) = true) ∧
    ∃ lower upper, Conditions.ofExpr q (.between false n zero beyond) = .ok ⟨[lower, upper], []⟩ ∧
      lower.accepts (.number (.integer 9223372036854775809)) = true ∧
      upper.accepts (.number (.integer 9223372036854775809)) = true := by
  intro q n zero largest beyond
  have field : Names q n ⟨"n"⟩ := by
    have h := Names.ident (q := q) ⟨"n", none⟩
    rwa [show q.restore "n" = "n" by decide +kernel] at h
  have other : isDate ⟨"n"⟩ = false := by decide +kernel
  have hzero : int64? "0".toList = some 0 := by decide +kernel
  have hlargest : int64? "9223372036854775807".toList = some 9223372036854775807 := by decide +kernel
  have hnone : int64? "9223372036854775807.5".toList = none := by decide +kernel
  have hbeyond : double? "9223372036854775807.5".toList =
      some (Binary64.ofInt 9223372036854775808) := by decide +kernel
  have zeroNumber : IsNumberText "0" := .inl (by rw [hzero]; rfl)
  have largestNumber : IsNumberText "9223372036854775807" := .inl (by rw [hlargest]; rfl)
  have beyondNumber : IsNumberText "9223372036854775807.5" := .inr (by rw [hbeyond]; rfl)
  have zeroSpelled : Spells zero "0" := .number "0" false
  have largestSpelled : Spells largest "9223372036854775807" := .number _ false
  have beyondSpelled : Spells beyond "9223372036854775807.5" := .nested (.number _ false)
  obtain ⟨-, listed, between⟩ := comparisons_divide_numbers field other
  refine ⟨field, other, ?_, ?_⟩
  · obtain ⟨condition, hcompiled, haccepts⟩ := listed [zero, largest] _
      (.cons zeroSpelled (.cons largestSpelled .nil)) (by decide +kernel)
    refine ⟨condition, hcompiled, (haccepts _).mpr ⟨largest, by simp, ?_⟩⟩
    rw [asks_iff field other largestSpelled largestNumber, relates_integer hlargest]
    exact ⟨_, rfl, by decide +kernel⟩
  · obtain ⟨lower, upper, hcompiled, haccepts⟩ :=
      between zero _ beyond _ zeroSpelled zeroNumber beyondSpelled beyondNumber
    refine ⟨lower, upper, hcompiled, (haccepts _).mpr ⟨?_, ?_⟩⟩
    · rw [asks_iff field other zeroSpelled zeroNumber]
      simp only [Relates, hzero]
      rintro ⟨_, ⟨⟩, hbelow⟩
      exact absurd hbelow (by decide +kernel)
    · rw [asks_iff field other beyondSpelled beyondNumber]
      simp only [Relates, hnone, hbeyond]
      rintro ⟨_, _, ⟨⟩, ⟨⟩, habove⟩
      exact absurd habove (by decide +kernel)

end LogQuery.Compile
