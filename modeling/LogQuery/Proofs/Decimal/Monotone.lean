import LogQuery.Proofs.Decimal.Rounding

/-!
# Rounding keeps the order

Within a binade a larger ratio has at least as many steps, and a later binade begins
where the one before it ends. So words of rounded ratios, and keys of rounded integers,
are ordered like the numbers they come from, though not strictly.
-/

namespace LogQuery.Decimal

namespace Binary64

variable {a b den : Nat}

/-- Rounding to an integer keeps the order. -/
theorem divNearest_mono (h : a ≤ b) : divNearest a den ≤ divNearest b den := by
  have hq : a / den ≤ b / den := Nat.div_le_div_right h
  have ha := Nat.div_add_mod a den
  have hb := Nat.div_add_mod b den
  rcases Nat.lt_or_eq_of_le hq with hlt | heq
  · have hup : divNearest a den ≤ a / den + 1 := by
      unfold divNearest
      grind
    have hdown : b / den ≤ divNearest b den := by
      unfold divNearest
      grind
    omega
  · -- the quotients agree, so the remainders are ordered
    rw [heq] at ha
    have hr : a % den ≤ b % den := by omega
    unfold divNearest
    rw [heq]
    grind

theorem ratioLog2_mono (ha : a ≠ 0) (hden : den ≠ 0) (h : a ≤ b) :
    ratioLog2 a den ≤ ratioLog2 b den := by
  have hb : b ≠ 0 := by omega
  have hratio : (a / den : ℚ) ≤ b / den := by
    have hab : (a : ℚ) ≤ b := by exact_mod_cast h
    gcongr
  have hlt : (2 : ℚ) ^ ratioLog2 a den < 2 ^ (ratioLog2 b den + 1) :=
    calc (2 : ℚ) ^ ratioLog2 a den ≤ a / den := (ratioLog2_spec ha hden).1
      _ ≤ b / den := hratio
      _ < 2 ^ (ratioLog2 b den + 1) := (ratioLog2_spec hb hden).2
  exact Int.lt_add_one_iff.mp ((zpow_lt_zpow_iff_right₀ (by norm_num)).mp hlt)

/-- The word of a larger ratio is at least as large. -/
theorem roundWord_mono (hden : den ≠ 0) (h : a ≤ b) : roundWord a den ≤ roundWord b den := by
  by_cases ha : a = 0
  · rw [roundWord, if_pos (by simpa using ha)]
    exact Nat.zero_le _
  have hb : b ≠ 0 := by omega
  rw [roundWord_eq ha, roundWord_eq hb]
  have hgrid : gridOf a den ≤ gridOf b den := by
    have hlog := ratioLog2_mono ha hden h
    unfold gridOf
    omega
  rcases Int.lt_or_eq_of_le hgrid with hlt | heq
  · -- the binade of the larger one begins where that of the smaller one ends, or later
    have hsteps := stepsOf_le ha hden
    have hlow := neg_le_gridOf a den
    have hfull : hiddenBit ≤ stepsOf b den := (le_stepsOf hb hden).resolve_right (by omega)
    have hnext : (gridOf a den + 1074).toNat + 1 ≤ (gridOf b den + 1074).toNat := by omega
    calc (gridOf a den + 1074).toNat * hiddenBit + stepsOf a den
        ≤ ((gridOf a den + 1074).toNat + 1) * hiddenBit + hiddenBit := by
          rw [Nat.add_one_mul]
          omega
      _ ≤ (gridOf b den + 1074).toNat * hiddenBit + stepsOf b den :=
          Nat.add_le_add (Nat.mul_le_mul_right _ hnext) hfull
  · have hsteps : stepsOf a den ≤ stepsOf b den := by
      unfold stepsOf
      rw [heq]
      exact divNearest_mono (Nat.mul_le_mul_right _ h)
    rw [heq]
    exact Nat.add_le_add_left hsteps _

/-- An integer whose magnitude has 64 bits is rounded to a double. -/
theorem key_ofInt {n : Int} (h : n.natAbs ≤ wordSize) :
    (ofInt n).key = if n < 0 then -(roundWord n.natAbs 1 : Int) else roundWord n.natAbs 1 := by
  have hfits : roundWord n.natAbs 1 < wordLimit :=
    Nat.lt_of_le_of_lt (roundWord_mono one_ne_zero h) (by decide +kernel)
  have hround : roundRatio? n.natAbs 1 = some ⟨false, roundWord n.natAbs 1, hfits⟩ := dif_pos hfits
  unfold ofInt
  rw [hround, Option.getD_some]
  split <;> rfl

theorem key_ofInt_mono {m n : Int} (hm : m.natAbs ≤ wordSize) (hn : n.natAbs ≤ wordSize)
    (h : m ≤ n) : (ofInt m).key ≤ (ofInt n).key := by
  rw [key_ofInt hm, key_ofInt hn]
  have hup : 0 ≤ m → roundWord m.natAbs 1 ≤ roundWord n.natAbs 1 :=
    fun h0 => roundWord_mono one_ne_zero (by omega)
  have hdown : n < 0 → roundWord n.natAbs 1 ≤ roundWord m.natAbs 1 :=
    fun h0 => roundWord_mono one_ne_zero (by omega)
  split <;> split <;> omega

end Binary64

end LogQuery.Decimal
