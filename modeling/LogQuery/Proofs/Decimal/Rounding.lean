import Mathlib.Algebra.Order.Field.Power
import Mathlib.Data.Rat.Cast.Order
import Mathlib.Tactic.FieldSimp
import Mathlib.Tactic.Linarith
import Mathlib.Tactic.NormNum
import Mathlib.Tactic.Positivity
import Mathlib.Tactic.Ring
import LogQuery.Decimal.Binary64

/-!
# Rounding to a double

The word of a rounded ratio counts the steps of the grid of its binade. A step of the grid
is a power of two, and rounding moves the ratio by at most half a step: in the binades of
full precision by at most its `2 ^ 53`rd part. A ratio below the midpoint between the
largest double and the first power of two beyond is rounded to a double.
-/

namespace LogQuery.Decimal

theorem natPow_div {b : Nat} (hb : b ≠ 0) (e : Int) :
    ((b ^ e.toNat : Nat) : ℚ) / ((b ^ (-e).toNat : Nat) : ℚ) = (b : ℚ) ^ e := by
  have hb' : (b : ℚ) ≠ 0 := by exact_mod_cast hb
  push_cast
  rw [← zpow_natCast, ← zpow_natCast, ← zpow_sub₀ hb']
  congr 1
  omega

theorem pow2_div (e : Int) : (pow2 e.toNat : ℚ) / pow2 (-e).toNat = 2 ^ e :=
  natPow_div (by decide) e

theorem pow10_div (e : Int) : (pow10 e.toNat : ℚ) / pow10 (-e).toNat = 10 ^ e :=
  natPow_div (by decide) e

theorem pow2_cast (n : Nat) : (pow2 n : ℚ) = 2 ^ (n : Int) := by
  rw [zpow_natCast]
  exact_mod_cast rfl

theorem pow10_cast (n : Nat) : (pow10 n : ℚ) = 10 ^ (n : Int) := by
  rw [zpow_natCast]
  exact_mod_cast rfl

theorem pow2_pos (n : Nat) : 0 < pow2 n := Nat.pow_pos (by decide)

theorem pow10_pos (n : Nat) : 0 < pow10 n := Nat.pow_pos (by decide)

theorem pow10_mono {m n : Nat} (h : m ≤ n) : pow10 m ≤ pow10 n :=
  Nat.pow_le_pow_right (by decide) h

namespace Binary64

section Magnitude

/-- The number a double stands for, its sign aside. -/
def magnitude (x : Binary64) : ℚ := x.significand * 2 ^ x.exponent

theorem ratio_div (x : Binary64) : (x.ratio.1 : ℚ) / x.ratio.2 = x.magnitude := by
  rw [magnitude, ← pow2_div, ratio]
  push_cast
  ring

theorem magnitude_nonneg (x : Binary64) : 0 ≤ x.magnitude := by
  rw [magnitude]
  positivity

theorem ratio_den_pos (x : Binary64) : 0 < x.ratio.2 := pow2_pos _

/-- A word that lies `q` steps up from the beginning of a binade. -/
theorem magnitude_of_word {x : Binary64} {binade q : Nat} (hx : x.word = binade * hiddenBit + q)
    (hlow : hiddenBit ≤ q ∨ binade = 0) (hhigh : q ≤ 2 * hiddenBit) :
    x.magnitude = q * 2 ^ ((binade : Int) - 1074) := by
  by_cases hsub : q < hiddenBit
  · obtain rfl : binade = 0 := hlow.resolve_left (by omega)
    have hword : x.word = q := by omega
    rw [magnitude, significand, exponent, hword, if_pos hsub, if_pos hsub]
    norm_num
  have hnormal : ¬ x.word < hiddenBit := by rw [hx]; omega
  rw [magnitude, significand, exponent, if_neg hnormal, if_neg hnormal]
  unfold hiddenBit at hx hsub hhigh ⊢
  by_cases hfull : q < 2 * 4503599627370496
  · have hdiv : x.word / 4503599627370496 = binade + 1 := by omega
    have hmod : x.word % 4503599627370496 + 4503599627370496 = q := by omega
    have hexp : ((binade + 1 : Nat) : Int) - 1075 = binade - 1074 := by omega
    rw [hdiv, hmod, hexp]
  · -- the last step of the binade is the first one of the next
    have hq : q = 2 * 4503599627370496 := by omega
    have hdiv : x.word / 4503599627370496 = binade + 2 := by omega
    have hmod : x.word % 4503599627370496 = 0 := by omega
    have hexp : ((binade + 2 : Nat) : Int) - 1075 = binade - 1074 + 1 := by omega
    rw [hdiv, hmod, hexp, hq, zpow_add_one₀ (by norm_num)]
    push_cast
    ring

end Magnitude

section Nearest

variable {num den : Nat}

/-- Rounding to an integer moves a ratio by at most one half. -/
theorem abs_divNearest_sub (hden : 0 < den) :
    |(divNearest num den : ℚ) - num / den| ≤ 1 / 2 := by
  have hden' : (0 : ℚ) < den := by exact_mod_cast hden
  have hratio : (num : ℚ) / den = (num / den : Nat) + ((num % den : Nat) : ℚ) / den := by
    rw [add_div' _ _ _ hden'.ne', div_left_inj' hden'.ne']
    exact_mod_cast (Nat.div_add_mod' num den).symm
  have hpart : (0 : ℚ) ≤ ((num % den : Nat) : ℚ) / den := by positivity
  rw [hratio, abs_le, divNearest]
  split
  next hless =>
    have hhalf : ((num % den : Nat) : ℚ) / den < 1 / 2 := by
      rw [div_lt_div_iff₀ hden' (by norm_num), one_mul, mul_comm]
      exact_mod_cast hless
    constructor <;> linarith
  split
  next _ hmore =>
    have hhalf : 1 / 2 < ((num % den : Nat) : ℚ) / den := by
      rw [div_lt_div_iff₀ (by norm_num) hden', one_mul, mul_comm]
      exact_mod_cast hmore
    have hone : ((num % den : Nat) : ℚ) / den < 1 := by
      rw [div_lt_one hden']
      exact_mod_cast Nat.mod_lt num hden
    push_cast
    constructor <;> linarith
  next hless hmore =>
    have hhalf : ((num % den : Nat) : ℚ) / den = 1 / 2 := by
      rw [div_eq_div_iff hden'.ne' (by norm_num), one_mul, mul_comm]
      exact_mod_cast Nat.le_antisymm (Nat.le_of_not_lt hmore) (Nat.le_of_not_lt hless)
    have hparity : ((num / den % 2 : Nat) : ℚ) ≤ 1 := by
      exact_mod_cast Nat.le_of_lt_succ (Nat.mod_lt (num / den) (by decide : 0 < 2))
    have hparity' : (0 : ℚ) ≤ (num / den % 2 : Nat) := by positivity
    push_cast at hparity hparity' ⊢
    constructor <;> linarith

/-- The largest power of two that is not above a ratio. -/
theorem ratioLog2_spec (hnum : num ≠ 0) (hden : den ≠ 0) :
    (2 : ℚ) ^ ratioLog2 num den ≤ num / den ∧ (num / den : ℚ) < 2 ^ (ratioLog2 num den + 1) := by
  have hden' : (0 : ℚ) < den := by exact_mod_cast Nat.pos_of_ne_zero hden
  have hbounds : ∀ n : Nat, n ≠ 0 →
      (2 : ℚ) ^ (n.log2 : Int) ≤ n ∧ (n : ℚ) < 2 ^ ((n.log2 : Int) + 1) := by
    intro n hn
    constructor
    · rw [zpow_natCast]
      exact_mod_cast Nat.log2_self_le hn
    · exact_mod_cast Nat.lt_log2_self
  obtain ⟨hnumLow, hnumHigh⟩ := hbounds num hnum
  obtain ⟨hdenLow, hdenHigh⟩ := hbounds den hden
  have hfits : den * pow2 ((num.log2 : Int) - den.log2).toNat ≤
      num * pow2 (-((num.log2 : Int) - den.log2)).toNat ↔
      (2 : ℚ) ^ ((num.log2 : Int) - den.log2) ≤ num / den := by
    have hpos : (0 : ℚ) < pow2 (-((num.log2 : Int) - den.log2)).toNat := by
      exact_mod_cast pow2_pos _
    rw [← pow2_div, div_le_div_iff₀ hpos hden', mul_comm (pow2 _ : ℚ)]
    exact_mod_cast Iff.rfl
  rw [ratioLog2]
  split
  next hle =>
    refine ⟨hfits.mp hle, ?_⟩
    rw [div_lt_iff₀ hden']
    calc (num : ℚ) < 2 ^ ((num.log2 : Int) + 1) := hnumHigh
      _ = 2 ^ ((num.log2 : Int) - den.log2 + 1) * 2 ^ (den.log2 : Int) := by
        rw [← zpow_add₀ (by norm_num)]
        congr 1
        omega
      _ ≤ 2 ^ ((num.log2 : Int) - den.log2 + 1) * den := by gcongr
  next hgt =>
    rw [Int.sub_add_cancel]
    refine ⟨?_, not_le.mp fun hle => hgt (hfits.mpr hle)⟩
    rw [le_div_iff₀ hden']
    calc (2 : ℚ) ^ ((num.log2 : Int) - den.log2 - 1) * den
        ≤ 2 ^ ((num.log2 : Int) - den.log2 - 1) * 2 ^ ((den.log2 : Int) + 1) := by gcongr
      _ = 2 ^ (num.log2 : Int) := by
        rw [← zpow_add₀ (by norm_num)]
        congr 1
        omega
      _ ≤ num := hnumLow

end Nearest

section Steps

variable {num den : Nat}

/-- The exponent of the grid to which a ratio is rounded. -/
def gridOf (num den : Nat) : Int := max (ratioLog2 num den - 52) (-1074)

/-- The steps of the grid to which a ratio is rounded. -/
def stepsOf (num den : Nat) : Nat :=
  divNearest (num * pow2 (-gridOf num den).toNat) (den * pow2 (gridOf num den).toNat)

theorem roundWord_eq (hnum : num ≠ 0) :
    roundWord num den = (gridOf num den + 1074).toNat * hiddenBit + stepsOf num den := by
  rw [roundWord, if_neg (by simpa using hnum)]
  rfl

theorem neg_le_gridOf (num den : Nat) : -1074 ≤ gridOf num den := le_max_right _ _

/-- Rounding moves a ratio by at most half a step. -/
theorem abs_stepsOf_sub (num : Nat) (hden : den ≠ 0) :
    |(stepsOf num den : ℚ) - num / den / 2 ^ gridOf num den| ≤ 1 / 2 := by
  have hpos : 0 < den * pow2 (gridOf num den).toNat :=
    Nat.mul_pos (Nat.pos_of_ne_zero hden) (pow2_pos _)
  have hratio : ((num * pow2 (-gridOf num den).toNat : Nat) : ℚ) /
      (den * pow2 (gridOf num den).toNat : Nat) = num / den / 2 ^ gridOf num den := by
    have hden' : (den : ℚ) ≠ 0 := by exact_mod_cast hden
    have hup : (pow2 (gridOf num den).toNat : ℚ) ≠ 0 := by exact_mod_cast (pow2_pos _).ne'
    have hdown : (pow2 (-gridOf num den).toNat : ℚ) ≠ 0 := by exact_mod_cast (pow2_pos _).ne'
    rw [← pow2_div]
    push_cast
    field_simp
  rw [← hratio]
  exact abs_divNearest_sub hpos

/-- In a binade of full precision the steps have 53 bits. -/
theorem stepsOf_le (hnum : num ≠ 0) (hden : den ≠ 0) : stepsOf num den ≤ 2 * hiddenBit := by
  have hnear := (abs_le.mp (abs_stepsOf_sub num hden)).2
  have hratio : (num / den / 2 ^ gridOf num den : ℚ) < 2 ^ (53 : Int) := by
    rw [div_lt_iff₀ (by positivity), ← zpow_add₀ (by norm_num)]
    apply lt_of_lt_of_le (ratioLog2_spec hnum hden).2
    apply zpow_le_zpow_right₀ (by norm_num)
    have hle : ratioLog2 num den - 52 ≤ gridOf num den := le_max_left _ _
    omega
  have hbits : ((2 * hiddenBit + 1 : Nat) : ℚ) = 2 ^ (53 : Int) + 1 := by norm_num [hiddenBit]
  have hlt : (stepsOf num den : ℚ) < (2 * hiddenBit + 1 : Nat) := by
    rw [hbits]
    linarith
  exact Nat.le_of_lt_succ (by exact_mod_cast hlt)

theorem le_stepsOf (hnum : num ≠ 0) (hden : den ≠ 0) :
    hiddenBit ≤ stepsOf num den ∨ gridOf num den = -1074 := by
  by_cases hgrid : gridOf num den = -1074
  · exact Or.inr hgrid
  · left
    have heq : gridOf num den = ratioLog2 num den - 52 := by
      rw [gridOf] at hgrid ⊢
      omega
    have hnear := (abs_le.mp (abs_stepsOf_sub num hden)).1
    have hratio : (2 : ℚ) ^ (52 : Int) ≤ num / den / 2 ^ gridOf num den := by
      rw [le_div_iff₀ (by positivity), ← zpow_add₀ (by norm_num), heq, add_sub_cancel]
      exact (ratioLog2_spec hnum hden).1
    have hbits : ((hiddenBit : Nat) : ℚ) = 2 ^ (52 : Int) := by norm_num [hiddenBit]
    have hlt : ((hiddenBit : Nat) : ℚ) < stepsOf num den + 1 := by
      rw [hbits]
      linarith
    exact Nat.le_of_lt_succ (by exact_mod_cast hlt)

/-- The magnitude of a rounded ratio is its steps of the grid. -/
theorem magnitude_eq_steps {x : Binary64} (hnum : num ≠ 0) (hden : den ≠ 0)
    (h : roundRatio? num den = some x) : x.magnitude = stepsOf num den * 2 ^ gridOf num den := by
  have hword : x.word = (gridOf num den + 1074).toNat * hiddenBit + stepsOf num den := by
    rw [← roundWord_eq hnum]
    rw [roundRatio?] at h
    split at h
    · cases h
      rfl
    · cases h
  have hgrid := neg_le_gridOf num den
  have hlow : hiddenBit ≤ stepsOf num den ∨ (gridOf num den + 1074).toNat = 0 :=
    (le_stepsOf hnum hden).imp_right fun h => by rw [h]; rfl
  rw [magnitude_of_word hword hlow (stepsOf_le hnum hden)]
  congr 2
  omega

/-- A ratio that is not tiny is rounded up by at most its `2 ^ 53`rd part. -/
theorem magnitude_le_of_roundRatio? {x : Binary64} (hden : den ≠ 0)
    (hnormal : (2 : ℚ) ^ (-1022 : Int) ≤ num / den) (h : roundRatio? num den = some x) :
    x.magnitude ≤ num / den * (1 + 1 / 2 ^ 53) := by
  have hnum : num ≠ 0 := by
    rintro rfl
    rw [Nat.cast_zero, zero_div] at hnormal
    exact absurd hnormal (not_le.mpr (by positivity))
  obtain ⟨hlow, hhigh⟩ := ratioLog2_spec hnum hden
  have hgrid : gridOf num den = ratioLog2 num den - 52 := by
    have htwo : (1 : ℚ) < 2 := by norm_num
    have hlt := (zpow_lt_zpow_iff_right₀ htwo).mp (lt_of_le_of_lt hnormal hhigh)
    rw [gridOf]
    omega
  have hnear := (abs_le.mp (abs_stepsOf_sub num hden)).2
  have hstep : (1 / 2 * 2 ^ gridOf num den : ℚ) = 2 ^ ratioLog2 num den * (1 / 2 ^ 53) := by
    rw [hgrid, zpow_sub₀ (by norm_num)]
    norm_num
    ring
  calc x.magnitude = stepsOf num den * 2 ^ gridOf num den := magnitude_eq_steps hnum hden h
    _ ≤ (num / den / 2 ^ gridOf num den + 1 / 2) * 2 ^ gridOf num den := by
      gcongr
      linarith
    _ = num / den + 2 ^ ratioLog2 num den * (1 / 2 ^ 53) := by
      rw [add_mul, div_mul_cancel₀ _ (by positivity), hstep]
    _ ≤ num / den + num / den * (1 / 2 ^ 53) := by gcongr
    _ = num / den * (1 + 1 / 2 ^ 53) := by ring

/-- The midpoint between the largest double and the first power of two beyond. -/
def overflow : Nat := (pow2 54 - 1) * pow2 970

theorem overflow_eq : (overflow : ℚ) = (2 ^ 54 - 1) * 2 ^ (970 : Int) := by
  have hbits : (pow2 54 : ℚ) = 2 ^ 54 := by rw [pow2_cast, zpow_natCast]
  have hstep : (pow2 970 : ℚ) = 2 ^ (970 : Int) := pow2_cast 970
  rw [overflow, Nat.cast_mul, Nat.cast_sub (pow2_pos 54), hbits, hstep, Nat.cast_one]

-- a number of more than a thousand bits is not to be evaluated on the way
attribute [irreducible] overflow

/-- A ratio below the overflow threshold is rounded to a double. -/
theorem exists_roundRatio? (hden : den ≠ 0) (h : (num / den : ℚ) < overflow) :
    ∃ x, roundRatio? num den = some x := by
  have hfits : roundWord num den < wordLimit := by
    by_cases hnum : num = 0
    · rw [roundWord, if_pos (by simpa using hnum)]
      decide
    rw [roundWord_eq hnum]
    have hlog : ratioLog2 num den < 1024 := by
      have hlt : (2 : ℚ) ^ ratioLog2 num den < 2 ^ (1024 : Int) := by
        apply lt_trans (lt_of_le_of_lt (ratioLog2_spec hnum hden).1 h)
        have hsplit : (2 : ℚ) ^ (1024 : Int) = 2 ^ 54 * 2 ^ (970 : Int) := by
          rw [← zpow_natCast, ← zpow_add₀ (by norm_num)]
          rfl
        rw [overflow_eq, hsplit]
        exact mul_lt_mul_of_pos_right (by norm_num) (by positivity)
      exact (zpow_lt_zpow_iff_right₀ (by norm_num)).mp hlt
    have hsteps := stepsOf_le hnum hden
    by_cases htop : ratioLog2 num den = 1023
    · -- in the last binade the midpoint is not reached
      have hgrid : gridOf num den = 971 := by rw [gridOf]; omega
      have hnear := (abs_le.mp (abs_stepsOf_sub num hden)).2
      have hlt : (stepsOf num den : ℚ) < (2 * hiddenBit : Nat) := by
        have hhalf : (num / den / 2 ^ gridOf num den : ℚ) < (2 * hiddenBit : Nat) - 1 / 2 := by
          rw [div_lt_iff₀ (by positivity), hgrid]
          rw [overflow_eq] at h
          have hstep : (2 : ℚ) ^ (971 : Int) = 2 * 2 ^ (970 : Int) := by
            rw [← zpow_one_add₀ (by norm_num)]
            rfl
          rw [hstep]
          generalize (2 : ℚ) ^ (970 : Int) = step at h
          unfold hiddenBit
          push_cast
          linarith
        linarith
      have hlt' : stepsOf num den < 2 * hiddenBit := by exact_mod_cast hlt
      rw [hgrid]
      unfold wordLimit hiddenBit at *
      omega
    · have hgrid : gridOf num den ≤ 970 := by rw [gridOf]; omega
      have hgrid' := neg_le_gridOf num den
      unfold wordLimit hiddenBit at *
      omega
  exact ⟨_, dif_pos hfits⟩

end Steps

section Products

variable {x y : Binary64}

theorem exists_mulMagnitude? (h : x.magnitude * y.magnitude < overflow) :
    ∃ z, x.mulMagnitude? y = some z := by
  have hden : x.ratio.2 * y.ratio.2 ≠ 0 :=
    (Nat.mul_pos x.ratio_den_pos y.ratio_den_pos).ne'
  apply exists_roundRatio? hden
  rwa [Nat.cast_mul, Nat.cast_mul, mul_div_mul_comm, ratio_div, ratio_div]

/-- The powers of ten that are used are too large by at most their `2 ^ 53`rd part. -/
theorem magnitude_tenTo_le {n : Nat} (hn : n ≤ 308) :
    (tenTo n).magnitude ≤ 10 ^ n * (1 + 1 / 2 ^ 53) := by
  have hratio : ((1 * pow10 (n : Int).toNat : Nat) : ℚ) / pow10 (-(n : Int)).toNat = 10 ^ n := by
    rw [one_mul, pow10_div, zpow_natCast]
  have hlt : (10 ^ n : ℚ) < overflow := by
    have hpow : pow10 n ≤ pow10 308 := pow10_mono hn
    have hlt : pow10 308 < overflow := by decide +kernel
    exact_mod_cast Nat.lt_of_le_of_lt hpow hlt
  have hone : (1 : ℚ) ≤ 10 ^ n := one_le_pow₀ (by norm_num)
  have hten : ofDecimal? 1 n =
      roundRatio? (1 * pow10 (n : Int).toNat) (pow10 (-(n : Int)).toNat) := by
    have hlog : Nat.log2 1 = 0 := by decide
    rw [ofDecimal?, if_neg (by decide), if_neg (by omega), if_neg (by rw [hlog]; omega)]
  obtain ⟨x, hx⟩ := exists_roundRatio? (pow10_pos _).ne' (hratio ▸ hlt)
  have hle := magnitude_le_of_roundRatio? (pow10_pos _).ne' (by
    rw [hratio]
    exact le_trans (zpow_le_one_of_nonpos₀ (by norm_num) (by norm_num)) hone) hx
  rw [tenTo, hten, hx, Option.getD_some]
  rwa [hratio] at hle

/-- Products up to this one are below the overflow threshold even when both factors have
been rounded. -/
def reach : Nat := (pow2 51 - 1) * pow2 973

theorem reach_lt : (reach : ℚ) * ((1 + 1 / 2 ^ 53) * (1 + 1 / 2 ^ 53)) < overflow := by
  have hreach : reach = 18014398509481976 * pow2 970 := by decide +kernel
  have hoverflow : overflow = 18014398509481983 * pow2 970 := by decide +kernel
  have hpos : (0 : ℚ) < pow2 970 := by exact_mod_cast pow2_pos 970
  rw [hreach, hoverflow]
  generalize pow2 970 = step at hpos
  push_cast
  norm_num
  linarith

attribute [irreducible] reach

theorem exists_mulMagnitude?_of_le {a b : ℚ} (ha : x.magnitude ≤ a * (1 + 1 / 2 ^ 53))
    (hb : y.magnitude ≤ b * (1 + 1 / 2 ^ 53)) (hab : a * b ≤ reach) :
    ∃ z, x.mulMagnitude? y = some z := by
  have hx : 0 ≤ x.magnitude := x.magnitude_nonneg
  have hy : 0 ≤ y.magnitude := y.magnitude_nonneg
  apply exists_mulMagnitude?
  calc x.magnitude * y.magnitude
      ≤ (a * (1 + 1 / 2 ^ 53)) * (b * (1 + 1 / 2 ^ 53)) := mul_le_mul ha hb hy (hx.trans ha)
    _ = a * b * ((1 + 1 / 2 ^ 53) * (1 + 1 / 2 ^ 53)) := by ring
    _ ≤ reach * ((1 + 1 / 2 ^ 53) * (1 + 1 / 2 ^ 53)) := by gcongr
    _ < overflow := reach_lt

end Products

end Binary64

end LogQuery.Decimal
