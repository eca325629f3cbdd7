import Mathlib.Data.Int.Order.Basic
import LogQuery.Predicate.Date

/-!
# Instants and their days

Instants are compared by their seconds before anything else, so their order is never against
that of their days. That is all that the check of whole days rests on: a condition accepts the
day of every instant that it accepts, whether its literal is a date or has a time, and so do
several conditions together. The converse holds for dates only.
-/

namespace LogQuery.Calendar

variable {t s : Instant} {d first last : Day}

theorem compare_day (d e : Day) : compare d e = compare d.number e.number := rfl

theorem compare_instant (t s : Instant) :
    compare t s = (compare t.second s.second).then (compare t.nano s.nano) := rfl

theorem compare_instant_eq_lt :
    compare t s = .lt ↔ t.second < s.second ∨ t.second = s.second ∧ t.nano < s.nano := by
  rw [compare_instant, Ordering.then_eq_lt, Int.compare_eq_lt, Int.compare_eq_eq, Nat.compare_eq_lt]

theorem compare_instant_eq_gt :
    compare t s = .gt ↔ s.second < t.second ∨ t.second = s.second ∧ s.nano < t.nano := by
  rw [compare_instant, Ordering.then_eq_gt, Int.compare_eq_gt, Int.compare_eq_eq, Nat.compare_eq_gt]

theorem compare_instant_eq_eq : compare t s = .eq ↔ t = s := by
  rw [compare_instant, Ordering.then_eq_eq, Int.compare_eq_eq, Nat.compare_eq_eq]
  cases t
  cases s
  simp

theorem second_le_of_ne_lt (h : compare t s ≠ .lt) : s.second ≤ t.second :=
  not_lt.mp fun hlt => h (compare_instant_eq_lt.mpr (.inl hlt))

theorem second_le_of_ne_gt (h : compare t s ≠ .gt) : t.second ≤ s.second :=
  not_lt.mp fun hlt => h (compare_instant_eq_gt.mpr (.inl hlt))

theorem day_mono (h : t.second ≤ s.second) : t.day.number ≤ s.day.number :=
  Int.ediv_le_ediv (by decide) h

/-- An instant that is not before another one is not on an earlier day. -/
theorem compare_day_ne_lt (h : compare t s ≠ .lt) : compare t.day s.day ≠ .lt := by
  rw [compare_day, Ne, Int.compare_eq_lt, not_lt]
  exact day_mono (second_le_of_ne_lt h)

/-- An instant that is not after another one is not on a later day. -/
theorem compare_day_ne_gt (h : compare t s ≠ .gt) : compare t.day s.day ≠ .gt := by
  rw [compare_day, Ne, Int.compare_eq_gt, not_lt]
  exact day_mono (second_le_of_ne_gt h)

/-- The day after a day. -/
def Day.next (d : Day) : Day := ⟨d.number + 1⟩

/-- The instants from the start of a day to the end of another one. The end is no instant: a
leap second and every fraction of one are before the next midnight. -/
def Instant.Within (first last : Day) (t : Instant) : Prop :=
  compare first.midnight t ≠ .gt ∧ compare t last.next.midnight = .lt

instance (first last : Day) (t : Instant) : Decidable (t.Within first last) :=
  inferInstanceAs (Decidable (_ ∧ _))

theorem midnight_le_iff : compare d.midnight t ≠ .gt ↔ compare t.day d ≠ .lt := by
  rw [Ne, compare_instant_eq_gt, compare_day, Ne, Int.compare_eq_lt]
  simp only [Day.midnight, Day.at, Instant.day, secondsPerDay]
  omega

theorem lt_midnight_iff : compare t d.next.midnight = .lt ↔ compare t.day d ≠ .gt := by
  rw [compare_instant_eq_lt, compare_day, Ne, Int.compare_eq_gt]
  simp only [Day.next, Day.midnight, Day.at, Instant.day, secondsPerDay]
  omega

/-- An instant is within some days if its day is. -/
theorem within_iff : t.Within first last ↔ compare t.day first ≠ .lt ∧ compare t.day last ≠ .gt :=
  and_congr midnight_le_iff lt_midnight_iff

end LogQuery.Calendar

namespace LogQuery.Predicate

open LogQuery.Calendar

/-- A condition accepts the day of an instant that it accepts. -/
theorem DateCondition.acceptsDay_of_acceptsInstant {c : DateCondition} {t : Instant}
    (h : c.acceptsInstant t = true) : c.acceptsDay t.day = true := by
  unfold acceptsInstant at h
  unfold acceptsDay
  split at h
  next hdate => rwa [if_pos hdate]
  next htime =>
    rw [if_neg htime]
    cases hop : c.operator with
    | present => rfl
    | oneOf | like | ilike => simp [hop] at h
    | compare cmp =>
      simp only [hop] at h
      cases cmp with
      | ne => rfl
      | eq =>
        have ht : t = c.timestamp := compare_instant_eq_eq.mp (eq_of_beq h)
        rw [ht]
        exact beq_iff_eq.mpr (Int.compare_eq_eq.mpr rfl)
      | gt =>
        have hgt : compare t c.timestamp = .gt := eq_of_beq h
        exact bne_iff_ne.mpr (compare_day_ne_lt (by rw [hgt]; decide))
      | ge => exact bne_iff_ne.mpr (compare_day_ne_lt (bne_iff_ne.mp h))
      | lt =>
        have hlt : compare t c.timestamp = .lt := eq_of_beq h
        exact bne_iff_ne.mpr (compare_day_ne_gt (by rw [hlt]; decide))
      | le => exact bne_iff_ne.mpr (compare_day_ne_gt (bne_iff_ne.mp h))

theorem allAcceptDay_of_allAcceptInstant {dates : List DateCondition} {t : Instant}
    (h : allAcceptInstant dates t = true) : allAcceptDay dates t.day = true := by
  rw [allAcceptInstant, List.all_eq_true] at h
  exact List.all_eq_true.mpr fun c hc => DateCondition.acceptsDay_of_acceptsInstant (h c hc)

end LogQuery.Predicate
