import LogQuery.Decimal.Shortest
import LogQuery.Proofs.Decimal.Rounding

/-!
# The size of the shortest digits

The shortest digits of a double lie between the midpoints to its neighbours. So they are
not zero for a positive double, and they exceed it by at most half a step of its grid.
-/

namespace LogQuery.Decimal

namespace Scientific

variable {d : Scientific}

/-- The number a decimal stands for. -/
def value (d : Scientific) : ℚ := d.digits * 10 ^ d.exponent

theorem normalizeFrom_pos {fuel : Nat} (hd : 0 < d.digits) : 0 < (d.normalizeFrom fuel).digits := by
  induction fuel generalizing d with
  | zero => exact hd
  | succ fuel ih =>
    rw [normalizeFrom]
    split
    next hzeros =>
      simp only [Bool.and_eq_true, beq_iff_eq] at hzeros
      apply ih
      show 0 < d.digits / 10
      omega
    next => exact hd

theorem value_normalizeFrom (fuel : Nat) (d : Scientific) :
    (d.normalizeFrom fuel).value = d.value := by
  induction fuel generalizing d with
  | zero => rfl
  | succ fuel ih =>
    rw [normalizeFrom]
    split
    next hzeros =>
      simp only [Bool.and_eq_true, beq_iff_eq] at hzeros
      have hdigits : d.digits = d.digits / 10 * 10 := by omega
      rw [ih, value, value, zpow_add_one₀ (by norm_num)]
      conv_rhs => rw [hdigits]
      push_cast
      ring
    next => rfl

end Scientific

section Points

variable {r : Rounding} {d : Scientific} {grid : Int}

theorem contains_zero {scale : Nat} (hlow : 0 < r.low) (hscale : 0 < scale) :
    r.contains 0 scale = false := by
  have hpos : 0 < r.low * scale := Nat.mul_pos hlow hscale
  simp only [Rounding.contains]
  split
  · simp
    omega
  · simp

theorem le_of_contains {num scale : Nat} (h : r.contains num scale = true) :
    num ≤ r.high * scale := by
  simp only [Rounding.contains] at h
  split at h
  · simp at h
    exact h.2
  · simp at h
    exact Nat.le_of_lt h.2

/-- A point of the grid reads back. -/
theorem pointAt?_spec (h : r.pointAt? grid = some d) : d.exponent = grid ∧
    r.contains (d.digits * (r.den * pow10 grid.toNat)) (pow10 (-grid).toNat) = true := by
  unfold Rounding.pointAt? at h
  extract_lets unit scale value below above fits distanceBelow distanceAbove nearest at h
  split at h
  next hfits =>
    cases h
    exact ⟨rfl, hfits⟩
  split at h
  next hfits =>
    cases h
    exact ⟨rfl, hfits⟩
  split at h
  next hfits =>
    cases h
    exact ⟨rfl, hfits⟩
  next => cases h

/-- Zero does not read back as a positive number. -/
theorem digits_pos_of_pointAt? (hlow : 0 < r.low) (h : r.pointAt? grid = some d) :
    0 < d.digits := by
  have hread := (pointAt?_spec h).2
  apply Nat.pos_of_ne_zero
  intro hzero
  rw [hzero, Nat.zero_mul, contains_zero hlow (pow10_pos _)] at hread
  exact absurd hread (by decide)

/-- A point of the grid is not beyond the midpoint above. -/
theorem value_le_of_pointAt? (hden : 0 < r.den) (h : r.pointAt? grid = some d) :
    d.value ≤ r.high / r.den := by
  obtain ⟨rfl, hread⟩ := pointAt?_spec h
  have hle := le_of_contains hread
  have hden' : (0 : ℚ) < r.den := by exact_mod_cast hden
  have hscale : (0 : ℚ) < pow10 (-d.exponent).toNat := by exact_mod_cast pow10_pos _
  rw [Scientific.value, ← pow10_div, le_div_iff₀ hden', mul_div_assoc', div_mul_eq_mul_div,
    div_le_iff₀ hscale]
  have hcomm : (d.digits * pow10 d.exponent.toNat * r.den : ℚ) =
      d.digits * (r.den * pow10 d.exponent.toNat) := by ring
  rw [hcomm]
  exact_mod_cast hle

end Points

section Shortest

variable {x : Binary64}

theorem significand_pos (hx : x.isZero = false) : 0 < x.significand := by
  have hword : x.word ≠ 0 := by simpa [Binary64.isZero] using hx
  have hbit : 0 < hiddenBit := by decide
  rw [Binary64.significand]
  split <;> omega

theorem low_pos (hx : x.isZero = false) : 0 < (Rounding.of x).low := by
  have hsig := significand_pos hx
  apply Nat.mul_pos _ (pow2_pos _)
  split <;> omega

theorem high_div_den (x : Binary64) : ((Rounding.of x).high : ℚ) / (Rounding.of x).den =
    (x.significand + 1 / 2) * 2 ^ x.exponent := by
  have hpos : (pow2 (-x.exponent).toNat : ℚ) ≠ 0 := by exact_mod_cast (pow2_pos _).ne'
  rw [← pow2_div, Rounding.of]
  push_cast
  field_simp
  ring

/-- The shortest digits of a positive double come from a point of a grid, if any. -/
theorem shortest_cases (hx : x.isZero = false) : shortest x = ⟨0, 0⟩ ∨
    ∃ d grid, (Rounding.of x).pointAt? grid = some d ∧ shortest x = d.normalize := by
  rw [shortest, hx]
  simp only [Bool.false_eq_true, ↓reduceIte]
  cases hfound : (List.range 17).findSome? fun n : Nat =>
      (Rounding.of x).pointAt? (ratioLog10 (Rounding.of x).value (Rounding.of x).den - n) with
  | none => exact Or.inl rfl
  | some d =>
    obtain ⟨n, -, hd⟩ := List.exists_of_findSome?_eq_some hfound
    exact Or.inr ⟨d, _, hd, rfl⟩

/-- The digits of a positive double are not zero, unless there are none. -/
theorem shortest_pos (hx : x.isZero = false) : shortest x = ⟨0, 0⟩ ∨ 0 < (shortest x).digits := by
  obtain hnone | ⟨d, grid, hd, hshortest⟩ := shortest_cases hx
  · exact Or.inl hnone
  · right
    rw [hshortest]
    exact Scientific.normalizeFrom_pos (digits_pos_of_pointAt? (low_pos hx) hd)

/-- The shortest digits are at most half a step above the double. -/
theorem shortest_le (hx : x.isZero = false) :
    (shortest x).value ≤ (x.significand + 1 / 2) * 2 ^ x.exponent := by
  obtain hnone | ⟨d, grid, hd, hshortest⟩ := shortest_cases hx
  · rw [hnone, Scientific.value, Nat.cast_zero, zero_mul]
    positivity
  · have hden : 0 < (Rounding.of x).den := Nat.mul_pos (by decide) (pow2_pos _)
    rw [hshortest, Scientific.normalize, Scientific.value_normalizeFrom, ← high_div_den]
    exact value_le_of_pointAt? hden hd

end Shortest

end LogQuery.Decimal
