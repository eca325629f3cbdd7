import LogQuery.Proofs.Decimal.Shortest
import LogQuery.Proofs.Json.Numbers

/-!
# Reading written doubles

The shortest digits of a double are a number in plain notation, with zeros after the point
or in scientific notation. What is read of them is some double: their digits are gathered to
an integer of 64 bits, and both it and the power of ten are rounded before they are
multiplied, so that the product need not be the double that was written. But it is never
refused: all but the four largest doubles stay within reach of a product of rounded factors,
and those four are read.
-/

namespace LogQuery.Json

open LogQuery.Decimal

section Texts

/-- A number without a fraction ends with a point and a zero. -/
def plainText (negative : Bool) (ds : List Char) (e : Nat) : NumberText where
  negative := negative
  whole := ds.take (e + 1) ++ List.replicate (e + 1 - (ds.take (e + 1)).length) '0'
  fraction := some (if (ds.drop (e + 1)).isEmpty then ['0'] else ds.drop (e + 1))
  exponent := none

/-- A number with zeros after the point. -/
def smallText (negative : Bool) (zeros : Nat) (ds : List Char) : NumberText where
  negative := negative
  whole := ['0']
  fraction := some (List.replicate zeros '0' ++ ds)
  exponent := none

/-- One digit, the others after a point, and an exponent. -/
def scientificText (negative : Bool) (ds : List Char) (e : Int) : NumberText where
  negative := negative
  whole := ds.take 1
  fraction := if ds.tail = [] then none else some ds.tail
  exponent := some (decide (e < 0), Nat.toDigits 10 e.natAbs)

/-- The text of a double. -/
def doubleText (x : Binary64) : NumberText :=
  let ds := (shortest x).digitChars
  let e := (shortest x).magnitude
  if x.isZero then smallText x.negative 0 ['0']
  else if 0 ≤ e ∧ e ≤ 15 then plainText x.negative ds e.toNat
  else if -5 ≤ e ∧ e < 0 then smallText x.negative (-e - 1).toNat ds
  else scientificText x.negative ds e

theorem negative_doubleText (x : Binary64) : (doubleText x).negative = x.negative := by
  rw [doubleText]
  split
  · rfl
  split
  · rfl
  split <;> rfl

theorem unsignedChars_doubleText (x : Binary64) :
    (doubleText x).unsignedChars = magnitudeChars x := by
  rw [magnitudeChars, doubleText]
  cases x.isZero with
  | true => rfl
  | false =>
    simp only [Bool.false_eq_true, ↓reduceIte, Bool.and_eq_true, decide_eq_true_eq]
    split
    · simp [plainText, NumberText.unsignedChars, NumberText.fractionChars, NumberText.exponentChars]
    split
    · simp [smallText, NumberText.unsignedChars, NumberText.fractionChars, NumberText.exponentChars]
    · have hne : Nat.toDigits 10 (shortest x).digits ≠ [] := Nat.toDigits_ne_nil
      obtain ⟨c, ds, hcons⟩ := List.exists_cons_of_ne_nil hne
      rw [Scientific.digitChars, hcons]
      cases ds <;> simp [scientificText, NumberText.unsignedChars, NumberText.fractionChars,
        NumberText.exponentChars]

/-- A double is written with a fraction or an exponent. -/
theorem exponent_doubleText (x : Binary64) :
    (doubleText x).fraction = none → (doubleText x).exponent ≠ none := by
  rw [doubleText]
  split
  · rintro ⟨⟩
  split
  · rintro ⟨⟩
  split
  · rintro ⟨⟩
  · rintro - ⟨⟩

/-- A double is written as its text. -/
theorem chars_doubleText (x : Binary64) : (doubleText x).chars = x.chars := by
  rw [NumberText.chars, negative_doubleText, unsignedChars_doubleText, Binary64.chars]

variable {negative : Bool} {ds : List Char}

theorem isDigit_zeros (n : Nat) : ∀ d ∈ List.replicate n '0', d.isDigit = true := by
  intro d hd
  rw [List.eq_of_mem_replicate hd]
  decide

theorem wellFormed_plainText (e : Nat) (hds : IsDigits ds)
    (hlead : ds.head? = some '0' → ds.length = 1 ∧ e = 0) :
    (plainText negative ds e).WellFormed := by
  have hhead : (ds.take (e + 1)).head? = ds.head? := by
    rw [List.head?_take, if_neg (Nat.succ_ne_zero e)]
  have hne : ds.take (e + 1) ≠ [] := by
    intro hnil
    rw [hnil, List.head?_nil] at hhead
    exact hds.ne_nil (List.head?_eq_none_iff.mp hhead.symm)
  have htake : ∀ d ∈ ds.take (e + 1), d.isDigit = true :=
    fun d hd => hds.isDigit d (List.mem_of_mem_take hd)
  refine ⟨⟨List.append_ne_nil_of_left_ne_nil hne _,
    List.forall_mem_append.mpr ⟨htake, isDigit_zeros _⟩⟩, ?_, ?_, nofun⟩
  · intro hzero
    rw [plainText, List.head?_append_of_ne_nil _ hne, hhead] at hzero
    obtain ⟨hlength, rfl⟩ := hlead hzero
    simp [plainText, hlength]
  · rintro fraction ⟨⟩
    split
    next => exact isDigits_singleton (by decide)
    next hrest =>
      exact ⟨by simpa using hrest, fun d hd => hds.isDigit d (List.mem_of_mem_drop hd)⟩

theorem wellFormed_smallText (zeros : Nat) (hds : IsDigits ds) :
    (smallText negative zeros ds).WellFormed := by
  refine ⟨isDigits_singleton (by decide), fun _ => rfl, ?_, nofun⟩
  rintro fraction ⟨⟩
  exact ⟨List.append_ne_nil_of_right_ne_nil _ hds.ne_nil,
    List.forall_mem_append.mpr ⟨isDigit_zeros zeros, hds.isDigit⟩⟩

theorem wellFormed_scientificText (e : Int) (hds : IsDigits ds) :
    (scientificText negative ds e).WellFormed := by
  obtain ⟨c, cs, rfl⟩ := List.exists_cons_of_ne_nil hds.ne_nil
  have hall := List.forall_mem_cons.mp hds.isDigit
  refine ⟨isDigits_singleton hall.1, fun _ => rfl, ?_, ?_⟩
  · intro fraction hfraction
    rw [scientificText] at hfraction
    split at hfraction
    next => cases hfraction
    next hne =>
      cases hfraction
      exact ⟨hne, hall.2⟩
  · rintro p ⟨⟩
    exact isDigits_toDigits e.natAbs

theorem wellFormed_doubleText (x : Binary64) : (doubleText x).WellFormed := by
  have hdigits : IsDigits (shortest x).digitChars := isDigits_toDigits (shortest x).digits
  rw [doubleText]
  cases hx : x.isZero with
  | true => exact wellFormed_smallText 0 (isDigits_singleton (by decide))
  | false =>
    simp only [Bool.false_eq_true, ↓reduceIte]
    split
    next =>
      apply wellFormed_plainText _ hdigits
      intro hhead
      have hzero : (shortest x).digits = 0 := eq_zero_of_head?_toDigits hhead
      obtain hnone | hpos := shortest_pos hx
      · rw [hnone]
        exact ⟨rfl, rfl⟩
      · omega
    split
    next => exact wellFormed_smallText _ hdigits
    next => exact wellFormed_scientificText _ hdigits

/-- What stands after a double is not read with it. -/
theorem readNumber_doubleChars (x : Binary64) {rest : List Char} (hrest : EndsValue rest) :
    readNumber (x.chars ++ rest) = (doubleText x).value?.map fun n => (n, rest) := by
  rw [readNumber, ← chars_doubleText,
    NumberText.readNumberText_chars (wellFormed_doubleText x) hrest]
  rfl

end Texts

section Sizes

variable {ds : List Char}

theorem ofDigitChars_lt (hds : ∀ d ∈ ds, d.isDigit = true) :
    Nat.ofDigitChars 10 ds 0 < 10 ^ ds.length := by
  induction ds with
  | nil => decide
  | cons d ds ih =>
    obtain ⟨hd, htail⟩ := List.forall_mem_cons.mp hds
    have hdigit : d.toNat - '0'.toNat ≤ 9 := Nat.sub_le_sub_right (Char.isDigit_iff_toNat.mp hd).2 _
    rw [Nat.ofDigitChars_cons, Nat.ofDigitChars_eq_ofDigitChars_zero]
    calc 10 ^ ds.length * (10 * 0 + (d.toNat - '0'.toNat)) + Nat.ofDigitChars 10 ds 0
        < 10 ^ ds.length * (10 * 0 + (d.toNat - '0'.toNat)) + 10 ^ ds.length :=
          Nat.add_lt_add_left (ih htail) _
      _ = 10 ^ ds.length * (d.toNat - '0'.toNat + 1) := by ring
      _ ≤ 10 ^ ds.length * 10 := Nat.mul_le_mul_left _ (by omega)

/-- The gathered digits, scaled by the number of digits left, are not above the number. -/
theorem gather_mul_pow_le (n : Nat) (ds : List Char) :
    (gather n ds).1 * 10 ^ (gather n ds).2.length ≤ Nat.ofDigitChars 10 ds n ∧
      (gather n ds).2.length ≤ ds.length := by
  induction ds generalizing n with
  | nil => exact ⟨Nat.le_of_eq (Nat.mul_one n), Nat.le_refl 0⟩
  | cons d ds ih =>
    rw [gather]
    split
    next hfits =>
      rw [ofDigitChars_cons_ten]
      exact ⟨(ih _).1, Nat.le_succ_of_le (ih _).2⟩
    next =>
      rw [Nat.ofDigitChars_eq_ofDigitChars_zero, Nat.mul_comm]
      exact ⟨Nat.le_add_right _ _, Nat.le_refl _⟩

/-- A number that is not beyond the reach of a double is not refused. -/
theorem exists_scale? {s : Nat} {e : Int} (hs : s < wordSize)
    (h : (s * 10 ^ e : ℚ) ≤ Binary64.reach) : ∃ x, scale? s e = some x := by
  rw [scale?]
  generalize hround : (Binary64.roundRatio? s 1).getD Binary64.zero = x
  by_cases hx : x.isZero = true
  · rw [if_pos hx]
    exact ⟨_, rfl⟩
  rw [if_neg hx]
  have hpos : s ≠ 0 := by
    rintro rfl
    rw [← hround] at hx
    exact hx (by decide +kernel)
  have hone : (1 : ℚ) ≤ s := by exact_mod_cast Nat.pos_of_ne_zero hpos
  by_cases hhuge : e > 308
  · -- no positive integer times such a power of ten is in reach
    have hle : (pow10 309 : ℚ) ≤ Binary64.reach := by
      apply le_trans _ h
      rw [← one_mul (pow10 309 : ℚ), pow10_cast]
      have hpow : (10 : ℚ) ^ ((309 : Nat) : Int) ≤ 10 ^ e :=
        zpow_le_zpow_right₀ (by norm_num) (by omega)
      gcongr
    have hlt : Binary64.reach < pow10 309 := by decide +kernel
    exact absurd hle (not_le.mpr (by exact_mod_cast hlt))
  rw [if_neg hhuge]
  by_cases hmul : e ≥ 0
  · rw [if_pos hmul]
    have hratio : ((s : ℚ) / (1 : Nat)) = s := by rw [Nat.cast_one, div_one]
    have hlt : (s : ℚ) / (1 : Nat) < Binary64.overflow := by
      have hword : wordSize < Binary64.overflow := by decide +kernel
      rw [hratio]
      exact_mod_cast Nat.lt_trans hs hword
    obtain ⟨y, hy⟩ := Binary64.exists_roundRatio? Nat.one_ne_zero hlt
    rw [hy, Option.getD_some] at hround
    have hle := Binary64.magnitude_le_of_roundRatio? Nat.one_ne_zero (by
      rw [hratio]
      exact le_trans (zpow_le_one_of_nonpos₀ (by norm_num) (by norm_num)) hone) hy
    rw [hratio, hround] at hle
    apply Binary64.exists_mulMagnitude?_of_le hle (Binary64.magnitude_tenTo_le (by omega))
    have hpow : (10 : ℚ) ^ e.toNat = 10 ^ e := by
      rw [← zpow_natCast, Int.toNat_of_nonneg hmul]
    rw [hpow]
    exact h
  · rw [if_neg hmul]
    exact ⟨_, rfl⟩

end Sizes

namespace NumberText

variable {t : NumberText}

/-- The exponent that is written. -/
def written (t : NumberText) : Int :=
  match t.exponent with
  | none => 0
  | some (negative, ds) => if negative then -(ofDigits ds : Int) else ofDigits ds

/-- The digits after the point. -/
def decimals (t : NumberText) : List Char := t.fraction.getD []

/-- The number a text stands for, its sign aside. -/
def magnitude (t : NumberText) : ℚ :=
  Nat.ofDigitChars 10 (t.whole ++ t.decimals) 0 * 10 ^ (t.written - t.decimals.length)

/-- The gathered digits of a number with a fraction or an exponent are scaled to a double. -/
theorem value?_real (hreal : t.fraction = none → t.exponent ≠ none)
    (hwhole : Nat.ofDigitChars 10 t.whole 0 < wordSize) :
    ∃ significand left, gather (Nat.ofDigitChars 10 t.whole 0) t.decimals = (significand, left) ∧
      t.value? = (scale? significand (-(t.decimals.length - left.length : Nat) + t.written)).map
        fun x => .real (if t.negative then x.neg else x) := by
  have hgather := gather_eq hwhole
  rw [value?, hgather, decimals, written]
  cases hfraction : t.fraction with
  | none =>
    cases hexponent : t.exponent with
    | none => exact absurd hexponent (hreal hfraction)
    | some p => exact ⟨_, _, rfl, rfl⟩
  | some ds =>
    refine ⟨_, _, rfl, ?_⟩
    cases t.exponent <;> simp

/-- A number is not refused if it is in reach and the digits before its point are gathered. -/
theorem exists_value? (hreal : t.fraction = none → t.exponent ≠ none)
    (hwhole : Nat.ofDigitChars 10 t.whole 0 < wordSize)
    (hmagnitude : t.magnitude ≤ Binary64.reach) : ∃ x, t.value? = some (.real x) := by
  obtain ⟨significand, left, hgather, hvalue⟩ := value?_real hreal hwhole
  have hlt := gather_lt hwhole t.decimals
  obtain ⟨hle, hlength⟩ := gather_mul_pow_le (Nat.ofDigitChars 10 t.whole 0) t.decimals
  simp only [hgather] at hlt hle hlength
  have hreach : (significand * 10 ^ (-(t.decimals.length - left.length : Nat) + t.written) : ℚ) ≤
      Binary64.reach := by
    have hsplit : (10 : ℚ) ^ (-(t.decimals.length - left.length : Nat) + t.written) =
        10 ^ left.length * 10 ^ (t.written - t.decimals.length) := by
      rw [← zpow_natCast, ← zpow_add₀ (by norm_num)]
      congr 1
      omega
    have hcast : (significand * 10 ^ left.length : ℚ) ≤
        Nat.ofDigitChars 10 (t.whole ++ t.decimals) 0 := by
      rw [Nat.ofDigitChars_append]
      exact_mod_cast hle
    rw [hsplit, ← mul_assoc]
    apply le_trans _ hmagnitude
    rw [magnitude]
    gcongr
  obtain ⟨x, hx⟩ := exists_scale? hlt hreach
  rw [hvalue, hx]
  exact ⟨_, rfl⟩

/-- The digits before the point bound a number without an exponent. -/
theorem magnitude_lt (ht : t.WellFormed) (hexponent : t.exponent = none) :
    t.magnitude < 10 ^ t.whole.length := by
  have hall : ∀ d ∈ t.whole ++ t.decimals, d.isDigit = true := by
    apply List.forall_mem_append.mpr ⟨ht.whole.isDigit, _⟩
    rw [decimals]
    cases hfraction : t.fraction with
    | none => simp
    | some ds => exact (ht.fraction ds hfraction).isDigit
  have hlt : (Nat.ofDigitChars 10 (t.whole ++ t.decimals) 0 : ℚ) <
      10 ^ (t.whole ++ t.decimals).length := by
    exact_mod_cast ofDigitChars_lt hall
  rw [magnitude, written, hexponent, zero_sub, zpow_neg, zpow_natCast, ← div_eq_mul_inv,
    div_lt_iff₀ (by positivity), ← pow_add, ← List.length_append]
  exact hlt

end NumberText

section Refusal

variable {negative : Bool}

theorem ofDigits_toDigits (n : Nat) : ofDigits (Nat.toDigits 10 n) = n := by
  have hfold : ofDigits (Nat.toDigits 10 n) = Nat.ofDigitChars 10 (Nat.toDigits 10 n) 0 := by
    simp only [ofDigits, Nat.ofDigitChars, Nat.mul_comm]
    rfl
  rw [hfold, Nat.ofDigitChars_ten_toDigits]

theorem written_scientificText (ds : List Char) (e : Int) :
    (scientificText negative ds e).written = e := by
  simp only [scientificText, NumberText.written, ofDigits_toDigits, decide_eq_true_eq]
  split <;> omega

/-- Scientific notation stands for the digits and the exponent it is made of. -/
theorem magnitude_scientificText (d : Scientific) :
    (scientificText negative d.digitChars d.magnitude).magnitude = d.value := by
  have hne : d.digitChars ≠ [] := Nat.toDigits_ne_nil
  have hvalue : Nat.ofDigitChars 10 d.digitChars 0 = d.digits := Nat.ofDigitChars_ten_toDigits
  obtain ⟨c, cs, hcons⟩ := List.exists_cons_of_ne_nil hne
  have hdecimals : (scientificText negative d.digitChars d.magnitude).decimals = cs := by
    rw [NumberText.decimals, scientificText, hcons]
    cases cs <;> rfl
  have hwhole : (scientificText negative d.digitChars d.magnitude).whole = [c] := by
    rw [scientificText, hcons]
    rfl
  have hexponent : d.magnitude - cs.length = d.exponent := by
    rw [Scientific.magnitude, hcons, List.length_cons]
    omega
  rw [NumberText.magnitude, hdecimals, hwhole, written_scientificText, hexponent,
    List.singleton_append, ← hcons, hvalue, Scientific.value]

/-- At most sixteen digits stand before the point, and a number with an exponent stands for
the shortest digits. -/
theorem doubleText_bounds (x : Binary64) : (doubleText x).whole.length ≤ 16 ∧
    ((doubleText x).exponent = none ∨
      x.isZero = false ∧ (doubleText x).magnitude = (shortest x).value) := by
  rw [doubleText]
  cases hx : x.isZero with
  | true =>
    rw [if_pos rfl]
    exact ⟨Nat.le_of_ble_eq_true rfl, Or.inl rfl⟩
  | false =>
    simp only [Bool.false_eq_true, ↓reduceIte]
    split
    next hplain =>
      refine ⟨?_, Or.inl rfl⟩
      simp only [plainText, List.length_append, List.length_take, List.length_replicate]
      omega
    split
    next => exact ⟨Nat.le_of_ble_eq_true rfl, Or.inl rfl⟩
    next =>
      refine ⟨?_, Or.inr ⟨trivial, magnitude_scientificText _⟩⟩
      simp only [scientificText, List.length_take]
      omega

theorem exponent_cases {x : Binary64} (hx : x.word + 4 < wordLimit) :
    x.exponent ≤ 970 ∧ x.significand ≤ 9007199254740991 ∨
      x.exponent = 971 ∧ x.significand ≤ 9007199254740987 := by
  unfold wordLimit hiddenBit at hx
  rw [Binary64.exponent, Binary64.significand]
  unfold hiddenBit
  by_cases hsub : x.word < 4503599627370496
  · rw [if_pos hsub, if_pos hsub]
    omega
  · rw [if_neg hsub, if_neg hsub]
    omega

/-- But for the four largest, the midpoint above a double is in reach. -/
theorem step_le_reach {x : Binary64} (hx : x.word + 4 < wordLimit) :
    (x.significand + 1 / 2 : ℚ) * 2 ^ x.exponent ≤ Binary64.reach := by
  have hreach : Binary64.reach = 18014398509481976 * pow2 970 := by decide +kernel
  have hstep : (pow2 970 : ℚ) = 2 ^ (970 : Int) := pow2_cast 970
  rw [hreach, Nat.cast_mul, hstep]
  obtain ⟨hexponent, hsignificand⟩ | ⟨hexponent, hsignificand⟩ := exponent_cases hx
  · have hsig : (x.significand + 1 / 2 : ℚ) ≤ (18014398509481976 : Nat) := by
      have h : (x.significand : ℚ) ≤ (9007199254740991 : Nat) := by exact_mod_cast hsignificand
      push_cast at h ⊢
      linarith
    have hpow : (2 : ℚ) ^ x.exponent ≤ 2 ^ (970 : Int) :=
      zpow_le_zpow_right₀ (by norm_num) hexponent
    gcongr
  · have hsig : ((x.significand + 1 / 2) * 2 : ℚ) ≤ (18014398509481976 : Nat) := by
      have h : (x.significand : ℚ) ≤ (9007199254740987 : Nat) := by exact_mod_cast hsignificand
      push_cast at h ⊢
      linarith
    have hpow : (2 : ℚ) ^ x.exponent = 2 * 2 ^ (970 : Int) := by
      rw [hexponent, ← zpow_one_add₀ (by norm_num)]
      rfl
    rw [hpow, ← mul_assoc]
    gcongr

/-- The four largest doubles. -/
def largest (negative : Bool) (i : Fin 4) : Binary64 where
  negative := negative
  word := wordLimit - 1 - i
  finite := by
    unfold wordLimit hiddenBit
    omega

theorem eq_largest {x : Binary64} (hx : wordLimit ≤ x.word + 4) :
    ∃ i, x = largest x.negative i := by
  have hfinite := x.finite
  refine ⟨⟨wordLimit - 1 - x.word, by omega⟩, ?_⟩
  have hword : x.word = wordLimit - 1 - (wordLimit - 1 - x.word) := by omega
  obtain ⟨negative, word, finite⟩ := x
  simp only [largest, Binary64.mk.injEq, true_and]
  exact hword

def Number.isReal : Number → Bool
  | .integer _ => false
  | .real _ => true

theorem exists_value?_largest (negative : Bool) (i : Fin 4) :
    ∃ y, (doubleText (largest negative i)).value? = some (.real y) := by
  have hread : ∀ negative i,
      (doubleText (largest negative i)).value?.any Number.isReal = true := by
    decide +kernel
  have h := hread negative i
  cases hvalue : (doubleText (largest negative i)).value? with
  | none =>
    rw [hvalue] at h
    cases h
  | some n =>
    rw [hvalue] at h
    cases n with
    | integer n => cases h
    | real y => exact ⟨y, rfl⟩

/-- The text of a double is read as a double. -/
theorem exists_value?_doubleText (x : Binary64) :
    ∃ y, (doubleText x).value? = some (.real y) := by
  obtain ⟨hlength, hsize⟩ := doubleText_bounds x
  have hwhole : Nat.ofDigitChars 10 (doubleText x).whole 0 < 10 ^ 16 :=
    lt_of_lt_of_le (ofDigitChars_lt (wellFormed_doubleText x).whole.isDigit)
      (Nat.pow_le_pow_right (by decide) hlength)
  have hword : 10 ^ 16 < wordSize := by decide
  by_cases htop : x.word + 4 < wordLimit
  · apply NumberText.exists_value? (exponent_doubleText x) (hwhole.trans hword)
    obtain hnone | ⟨hx, hvalue⟩ := hsize
    · have hlt := NumberText.magnitude_lt (wellFormed_doubleText x) hnone
      have hpow : (10 : ℚ) ^ (doubleText x).whole.length ≤ (10 ^ 16 : Nat) := by
        exact_mod_cast Nat.pow_le_pow_right (by decide) hlength
      have hreach : ((10 ^ 16 : Nat) : ℚ) ≤ Binary64.reach := by
        have h : 10 ^ 16 ≤ Binary64.reach := by decide +kernel
        exact_mod_cast h
      exact hlt.le.trans (hpow.trans hreach)
    · rw [hvalue]
      exact (shortest_le hx).trans (step_le_reach htop)
  · -- the midpoint above is out of reach, so these are read one by one
    obtain ⟨i, hi⟩ := eq_largest (Nat.le_of_not_lt htop)
    rw [hi]
    exact exists_value?_largest x.negative i

end Refusal

end LogQuery.Json
