import LogQuery.Proofs.Compile.Acceptance
import LogQuery.Proofs.Predicate.Dates

/-!
# The six comparisons of the date with one literal

The condition that a comparison makes of a literal does not keep the literal alone: up to a
date the last second of the day is kept, and at any other comparison its midnight. Still all
six conditions judge an instant by one order, that of the instant and the time of the literal,
or that of their days if the literal is a date. So they fit together as comparisons do.
-/

namespace LogQuery.Predicate

/-- Six answers as those of the comparisons of two values: exactly one of before, the same and
after is right, and the others are made of these. -/
structure Complementary (accepts : Comparison → Bool) : Prop where
  one : ∃! c, c ∈ [Comparison.lt, .eq, .gt] ∧ accepts c = true
  le : accepts .le = (accepts .lt || accepts .eq)
  ge : accepts .ge = (accepts .gt || accepts .eq)
  ne : accepts .ne = !accepts .eq

theorem complementary_holds (o : Ordering) : Complementary (·.holds o) where
  one := by cases o <;> simp [Comparison.holds, ExistsUnique]
  le := by cases o <;> rfl
  ge := by cases o <;> rfl
  ne := rfl

theorem complementary_of_order {accepts : Comparison → Bool} {o : Ordering}
    (h : ∀ c, accepts c = c.holds o) : Complementary accepts := by
  rw [funext h]
  exact complementary_holds o

end LogQuery.Predicate

namespace LogQuery.Compile

open LogQuery.Predicate LogQuery.Calendar

variable {raw : String} {c : Comparison} {p : DateCondition} {d : Day}

theorem exists_parse (h : IsDateText raw) (c : Comparison) :
    ∃ p, DateCondition.parse raw (.compare c) = .ok p := by
  obtain ⟨conditions, hc⟩ := (Conditions.ofDate_isOk_iff c raw).mpr h
  unfold Conditions.ofDate at hc
  split at hc
  next p hp => exact ⟨p, hp⟩
  next => cases hc

/-- All comparisons with a literal judge an instant by one order. -/
theorem exists_order (h : IsDateText raw) (t : Instant) : ∃ o, ∀ c p,
    DateCondition.parse raw (.compare c) = .ok p → p.acceptsInstant t = c.holds o := by
  cases hday : day? (Text.trimChars raw.toList) with
  | some d =>
    refine ⟨compare t.day d, fun c p hp => Bool.eq_iff_iff.mpr ?_⟩
    rw [Conditions.acceptsInstant_parse hp, DateRelates, hday]
  | none =>
    obtain ⟨bound, hbound⟩ := Option.isSome_iff_exists.mp (h.resolve_left (by simp [hday]))
    refine ⟨compare t bound, fun c p hp => Bool.eq_iff_iff.mpr ?_⟩
    rw [Conditions.acceptsInstant_parse hp, DateRelates, hday, hbound]
    simp

theorem acceptsInstant_of_day (hday : day? (Text.trimChars raw.toList) = some d)
    (hp : DateCondition.parse raw (.compare c) = .ok p) (t : Instant) :
    p.acceptsInstant t = c.holds (compare t.day d) := by
  rw [Bool.eq_iff_iff, Conditions.acceptsInstant_parse hp, DateRelates, hday]

/-- A date judges a day as it judges the instants of it. -/
theorem acceptsDay_of_day (hday : day? (Text.trimChars raw.toList) = some d)
    (hp : DateCondition.parse raw (.compare c) = .ok p) (e : Day) :
    p.acceptsDay e = c.holds (compare e d) := by
  have hdate : p.dateOnly = true := by
    unfold DateCondition.parse at hp
    simp only [hday] at hp
    cases hp
    rfl
  have hmidnight : e.midnight.day = e := day_at (by decide)
  have haccepts := acceptsInstant_of_day hday hp e.midnight
  rw [DateCondition.acceptsInstant, if_pos hdate, hmidnight] at haccepts
  rw [DateCondition.acceptsDay, if_pos hdate, haccepts]

/-- A day is the one of the literal if it is compared as the same. -/
theorem holds_eq_iff (e d : Day) : Comparison.eq.holds (compare e d) = true ↔ e = d := by
  rw [Comparison.holds, beq_iff_eq, compare_day, Int.compare_eq_eq]
  cases e
  cases d
  simp

/-- Six conditions that agree on every instant and, if their literal is a date, on every day.
Of a date, the same are the instants of the day, and between two dates are the instants from
the start of the one to the end of the other. -/
structure DivideTime (raw : String) (conditions : Comparison → DateCondition) : Prop where
  instants : ∀ t, Complementary fun c => (conditions c).acceptsInstant t
  days : ∀ d, day? (Text.trimChars raw.toList) = some d →
    ∀ e, Complementary fun c => (conditions c).acceptsDay e
  same : ∀ d, day? (Text.trimChars raw.toList) = some d →
    ∀ t, (conditions .eq).acceptsInstant t = true ↔ t.day = d
  between : ∀ d, day? (Text.trimChars raw.toList) = some d →
    ∀ raw' d', day? (Text.trimChars raw'.toList) = some d' →
      ∃ upper, DateCondition.parse raw' (.compare .le) = .ok upper ∧
        ∀ t, allAcceptInstant [conditions .ge, upper] t = true ↔ t.Within d d'

/-- Every literal that is a date or a time can be compared with in all six ways, and these
divide the time line between them. -/
theorem comparisons_divide_time (h : IsDateText raw) : ∃ conditions : Comparison → DateCondition,
    (∀ c, DateCondition.parse raw (.compare c) = .ok (conditions c)) ∧
      DivideTime raw conditions := by
  choose conditions hparse using exists_parse h
  refine ⟨conditions, hparse, ?_, ?_, ?_, ?_⟩
  · intro t
    obtain ⟨o, ho⟩ := exists_order h t
    exact complementary_of_order fun c => ho c _ (hparse c)
  · intro d hday e
    exact complementary_of_order fun c => acceptsDay_of_day hday (hparse c) e
  · intro d hday t
    rw [acceptsInstant_of_day hday (hparse .eq), holds_eq_iff]
  · intro d hday raw' d' hday'
    obtain ⟨upper, hupper⟩ := exists_parse (.inl (by rw [hday']; rfl)) .le
    refine ⟨upper, hupper, fun t => ?_⟩
    have hlow := acceptsInstant_of_day hday (hparse .ge) t
    have hhigh := acceptsInstant_of_day hday' hupper t
    simp [allAcceptInstant, hlow, hhigh, within_iff, Comparison.holds]

/-- The leap second that ends the last day of a range is in it. -/
theorem comparisons_divide_time_leap : IsDateText " 2016-12-30" ∧
    ∃ lower upper, DateCondition.parse " 2016-12-30" (.compare .ge) = .ok lower ∧
      DateCondition.parse "2016-12-31" (.compare .le) = .ok upper ∧
      ∃ t, timestamp? "2016-12-31T23:59:60.5Z" = some t ∧
        allAcceptInstant [lower, upper] t = true := by
  have hlow : day? (Text.trimChars " 2016-12-30".toList) = some ⟨17165⟩ := by decide +kernel
  have hhigh : day? (Text.trimChars "2016-12-31".toList) = some ⟨17166⟩ := by decide +kernel
  have h : IsDateText " 2016-12-30" := .inl (by rw [hlow]; rfl)
  obtain ⟨conditions, hparse, hdivide⟩ := comparisons_divide_time h
  obtain ⟨upper, hupper, hrange⟩ := hdivide.between _ hlow _ _ hhigh
  refine ⟨h, conditions .ge, upper, hparse .ge, hupper, ⟨1483228799, 1500000000⟩, ?_, ?_⟩
  · decide +kernel
  · rw [hrange]
    decide +kernel

end LogQuery.Compile
