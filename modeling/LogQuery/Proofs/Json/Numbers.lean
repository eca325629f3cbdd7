import Mathlib.Data.List.Basic
import Mathlib.Data.List.TakeDrop
import Mathlib.Tactic.IntervalCases
import LogQuery.Json.Reader
import LogQuery.Json.Printer

/-!
# Reading written numbers

A number is written with digits that do not begin with a needless zero, and with digits on
both sides of a point. So what is read of it is the number as it is written, and nothing of
what stands after it. An integer of 64 bits is read back as itself.
-/

namespace LogQuery.Json

open LogQuery.Decimal

/-- What stands after a value: nothing, or a character that ends it. -/
def EndsValue (rest : List Char) : Prop := ∀ c ∈ rest.head?, c = ',' ∨ c = ']' ∨ c = '\x7d'

theorem endsValue_nil : EndsValue [] := nofun

theorem endsValue_cons {c : Char} (hc : c = ',' ∨ c = ']' ∨ c = '\x7d') (rest : List Char) :
    EndsValue (c :: rest) := by
  rintro d ⟨⟩
  exact hc

theorem skipSpace_cons {c : Char} (hc : isSpace c = false) (cs : List Char) :
    skipSpace (c :: cs) = c :: cs :=
  List.dropWhile_cons_of_neg (by simp [hc])

/-- Digits, at least one. -/
structure IsDigits (ds : List Char) : Prop where
  ne_nil : ds ≠ []
  isDigit : ∀ d ∈ ds, d.isDigit = true

section Digits

variable {ds rest : List Char} {n : Nat}

theorem spanDigits_append (hds : ∀ d ∈ ds, d.isDigit = true)
    (hrest : ∀ c ∈ rest.head?, c.isDigit = false) : spanDigits (ds ++ rest) = (ds, rest) := by
  have hstop : rest.takeWhile Char.isDigit = [] ∧ rest.dropWhile Char.isDigit = rest := by
    cases rest with
    | nil => exact ⟨rfl, rfl⟩
    | cons c rest =>
      have hc : c.isDigit = false := hrest c rfl
      exact ⟨List.takeWhile_cons_of_neg (by simp [hc]), List.dropWhile_cons_of_neg (by simp [hc])⟩
  rw [spanDigits, List.span_eq_takeWhile_dropWhile, List.takeWhile_append_of_pos hds,
    List.dropWhile_append_of_pos hds, hstop.1, hstop.2, List.append_nil]

/-- A digit is neither a blank nor a closing bracket. -/
theorem not_space_of_isDigit {d : Char} (hd : d.isDigit = true) :
    isSpace d = false ∧ d ≠ ']' ∧ d ≠ '\x7d' := by
  obtain ⟨hlow, hhigh⟩ := Char.isDigit_iff_toNat.mp hd
  refine ⟨?_, ?_, ?_⟩
  · simp only [isSpace, Bool.or_eq_false_iff, beq_eq_false_iff_ne]
    refine ⟨⟨⟨?_, ?_⟩, ?_⟩, ?_⟩ <;> rintro rfl <;> exact absurd hlow (by decide)
  · rintro rfl
    exact absurd hhigh (by decide)
  · rintro rfl
    exact absurd hhigh (by decide)

theorem isDigits_singleton {c : Char} (hc : c.isDigit = true) : IsDigits [c] where
  ne_nil := List.cons_ne_nil c []
  isDigit := List.forall_mem_singleton.mpr hc

theorem isDigits_toDigits (n : Nat) : IsDigits (Nat.toDigits 10 n) where
  ne_nil := Nat.toDigits_ne_nil
  isDigit _ hd := Nat.isDigit_of_mem_toDigits (by decide) (by decide) hd

theorem head?_toDigits (hn : 0 < n) : (Nat.toDigits 10 n).head? ≠ some '0' := by
  induction n using Nat.strongRecOn with
  | ind n ih =>
    by_cases hlt : n < 10
    · rw [Nat.toDigits_of_lt_base hlt]
      interval_cases n <;> decide
    · rw [Nat.toDigits_of_base_le (by decide) (Nat.le_of_not_lt hlt),
        List.head?_append_of_ne_nil _ Nat.toDigits_ne_nil]
      exact ih (n / 10) (by omega) (by omega)

/-- Only zero is written with a zero in front. -/
theorem eq_zero_of_head?_toDigits (h : (Nat.toDigits 10 n).head? = some '0') : n = 0 := by
  by_contra hn
  exact head?_toDigits (Nat.pos_of_ne_zero hn) h

theorem le_ofDigitChars (n : Nat) (ds : List Char) : n ≤ Nat.ofDigitChars 10 ds n := by
  induction ds generalizing n with
  | nil => exact Nat.le_refl n
  | cons d ds ih =>
    have hle := ih (10 * n + (d.toNat - '0'.toNat))
    exact Nat.le_trans (by omega) hle

theorem ofDigitChars_cons_ten (d : Char) (ds : List Char) (n : Nat) :
    Nat.ofDigitChars 10 (d :: ds) n = Nat.ofDigitChars 10 ds (n * 10 + (d.toNat - 48)) := by
  rw [Nat.mul_comm n 10]
  rfl

/-- Digits of a number that fits 64 bits are gathered to the last. -/
theorem gather_eq (h : Nat.ofDigitChars 10 ds n < wordSize) :
    gather n ds = (Nat.ofDigitChars 10 ds n, []) := by
  induction ds generalizing n with
  | nil => rfl
  | cons d ds ih =>
    rw [ofDigitChars_cons_ten] at h ⊢
    have hfits : n * 10 + (d.toNat - 48) < wordSize := Nat.lt_of_le_of_lt (le_ofDigitChars _ ds) h
    rw [gather, if_pos hfits, ih h]

theorem gather_lt (hn : n < wordSize) (ds : List Char) : (gather n ds).1 < wordSize := by
  induction ds generalizing n with
  | nil => exact hn
  | cons d ds ih =>
    rw [gather]
    split
    next hfits => exact ih hfits
    next => exact hn

theorem gather_toDigits (h : n < wordSize) : gather 0 (Nat.toDigits 10 n) = (n, []) := by
  have hvalue : Nat.ofDigitChars 10 (Nat.toDigits 10 n) 0 = n := Nat.ofDigitChars_ten_toDigits
  rw [gather_eq (by rwa [hvalue]), hvalue]

end Digits

namespace NumberText

/-- The digits after the point, with the point. -/
def fractionChars : Option (List Char) → List Char
  | none => []
  | some ds => '.' :: ds

/-- The exponent with its letter and its sign. -/
def exponentChars : Option (Bool × List Char) → List Char
  | none => []
  | some (negative, ds) => 'e' :: (if negative then '-' else '+') :: ds

def unsignedChars (t : NumberText) : List Char :=
  t.whole ++ (fractionChars t.fraction ++ exponentChars t.exponent)

/-- A number as it is written. -/
def chars (t : NumberText) : List Char :=
  if t.negative then '-' :: t.unsignedChars else t.unsignedChars

/-- Digits on both sides of a point, and no needless zero in front. -/
structure WellFormed (t : NumberText) : Prop where
  whole : IsDigits t.whole
  lead : t.whole.head? = some '0' → t.whole.length = 1
  fraction : ∀ ds ∈ t.fraction, IsDigits ds
  exponent : ∀ e ∈ t.exponent, IsDigits e.2

variable {t : NumberText} {rest : List Char}

theorem isDigit_of_endsValue (hrest : EndsValue rest) : ∀ c ∈ rest.head?, c.isDigit = false := by
  intro c hc
  obtain rfl | rfl | rfl := hrest c hc <;> decide

theorem spanDigits_ends {ds : List Char} (hds : IsDigits ds) (hrest : EndsValue rest) :
    spanDigits (ds ++ rest) = (ds, rest) :=
  spanDigits_append hds.isDigit (isDigit_of_endsValue hrest)

theorem readExponent_chars {e : Option (Bool × List Char)} (he : ∀ p ∈ e, IsDigits p.2)
    (hrest : EndsValue rest) : readExponent (exponentChars e ++ rest) = some (e, rest) := by
  cases e with
  | none =>
    cases rest with
    | nil => rfl
    | cons c rest => obtain rfl | rfl | rfl := hrest c rfl <;> rfl
  | some p =>
    obtain ⟨negative, ds⟩ := p
    have hds : IsDigits ds := he _ rfl
    have hspan := spanDigits_ends hds hrest
    have hne : ds.isEmpty = false := List.isEmpty_eq_false_iff.mpr hds.ne_nil
    cases negative <;> simp [exponentChars, readExponent, spanSign, hspan, hne]

/-- No digit stands after the digits of a part. -/
theorem isDigit_exponentChars (e : Option (Bool × List Char)) (hrest : EndsValue rest) :
    ∀ c ∈ (exponentChars e ++ rest).head?, c.isDigit = false := by
  cases e with
  | none => exact isDigit_of_endsValue hrest
  | some p =>
    rintro c ⟨⟩
    decide

theorem readFraction_chars {f : Option (List Char)} (hf : ∀ ds ∈ f, IsDigits ds)
    (e : Option (Bool × List Char)) (hrest : EndsValue rest) :
    readFraction (fractionChars f ++ (exponentChars e ++ rest)) =
      some (f, exponentChars e ++ rest) := by
  cases f with
  | none =>
    have hpoint : ∀ c ∈ (exponentChars e ++ rest).head?, c ≠ '.' := by
      cases e with
      | none =>
        intro c hc
        obtain rfl | rfl | rfl := hrest c hc <;> decide
      | some p =>
        rintro c ⟨⟩
        decide
    show readFraction (exponentChars e ++ rest) = _
    generalize exponentChars e ++ rest = cs at hpoint
    cases cs with
    | nil => rfl
    | cons c cs =>
      have hc : c ≠ '.' := hpoint c rfl
      rw [readFraction.eq_def]
      split
      · simp_all
      · rfl
  | some ds =>
    have hds : IsDigits ds := hf _ rfl
    have hspan := spanDigits_append hds.isDigit (isDigit_exponentChars e hrest)
    have hne : ds.isEmpty = false := List.isEmpty_eq_false_iff.mpr hds.ne_nil
    simp [fractionChars, readFraction, hspan, hne]

/-- Reads a number after its sign. -/
def readUnsigned (negative : Bool) (cs : List Char) : Option (NumberText × List Char) :=
  let (whole, rest) := spanDigits cs
  if whole.isEmpty || (whole.head? == some '0' && whole.length > 1) then none
  else
    (readFraction rest).bind fun (fraction, rest) =>
      (readExponent rest).map fun (exponent, rest) => (⟨negative, whole, fraction, exponent⟩, rest)

theorem readNumberText_minus (cs : List Char) :
    readNumberText ('-' :: cs) = readUnsigned true cs := rfl

theorem readNumberText_digit {d : Char} (hd : d.isDigit = true) (cs : List Char) :
    readNumberText (d :: cs) = readUnsigned false (d :: cs) := by
  have hminus : d ≠ '-' := by
    rintro rfl
    exact absurd hd (by decide)
  rw [readNumberText]
  · rfl
  · intro ds heq
    exact hminus (List.head_eq_of_cons_eq heq)

theorem readUnsigned_chars (ht : t.WellFormed) (negative : Bool) (hrest : EndsValue rest) :
    readUnsigned negative (t.unsignedChars ++ rest) =
      some ({ t with negative := negative }, rest) := by
  have hspan : spanDigits (t.unsignedChars ++ rest) =
      (t.whole, fractionChars t.fraction ++ (exponentChars t.exponent ++ rest)) := by
    rw [unsignedChars, List.append_assoc, List.append_assoc]
    apply spanDigits_append ht.whole.isDigit
    cases hf : t.fraction with
    | none => exact isDigit_exponentChars _ hrest
    | some ds =>
      rintro c ⟨⟩
      decide
  have hlead : (t.whole.isEmpty || (t.whole.head? == some '0' && t.whole.length > 1)) = false := by
    have hne : t.whole.isEmpty = false := List.isEmpty_eq_false_iff.mpr ht.whole.ne_nil
    by_cases hzero : t.whole.head? = some '0'
    · simp [hne, ht.lead hzero]
    · simp [hne, hzero]
  simp only [readUnsigned, hspan, hlead, readFraction_chars ht.fraction _ hrest,
    readExponent_chars ht.exponent hrest, Option.bind_some, Option.map_some, Bool.false_eq_true,
    ↓reduceIte]

/-- What is read of a written number is the number as it is written. -/
theorem readNumberText_chars (ht : t.WellFormed) (hrest : EndsValue rest) :
    readNumberText (t.chars ++ rest) = some (t, rest) := by
  cases hsign : t.negative with
  | true =>
    have hchars : t.chars ++ rest = '-' :: (t.unsignedChars ++ rest) := by
      rw [chars, if_pos hsign]
      rfl
    rw [hchars, readNumberText_minus, readUnsigned_chars ht true hrest, ← hsign]
  | false =>
    obtain ⟨d, ds, hwhole⟩ := List.exists_cons_of_ne_nil ht.whole.ne_nil
    have hd : d.isDigit = true := ht.whole.isDigit d (hwhole ▸ List.mem_cons_self)
    have hread := readUnsigned_chars ht false hrest
    have hchars : t.chars ++ rest =
        d :: (ds ++ (fractionChars t.fraction ++ exponentChars t.exponent) ++ rest) := by
      rw [chars, hsign, unsignedChars, hwhole]
      rfl
    have hunsigned : t.unsignedChars ++ rest =
        d :: (ds ++ (fractionChars t.fraction ++ exponentChars t.exponent) ++ rest) := by
      rw [unsignedChars, hwhole]
      rfl
    rw [hchars, readNumberText_digit hd, ← hunsigned, hread, ← hsign]

end NumberText

section Integers

variable {rest : List Char}

/-- The text of an integer. -/
def integerText (n : Int) : NumberText := ⟨decide (n < 0), Nat.toDigits 10 n.natAbs, none, none⟩

theorem chars_integerText (n : Int) : (integerText n).chars = intChars n := by
  simp [integerText, NumberText.chars, NumberText.unsignedChars, NumberText.fractionChars,
    NumberText.exponentChars, intChars]

theorem wellFormed_integerText (n : Int) : (integerText n).WellFormed where
  whole := isDigits_toDigits n.natAbs
  lead h := by
    have hzero : n.natAbs = 0 := eq_zero_of_head?_toDigits h
    show (Nat.toDigits 10 n.natAbs).length = 1
    rw [hzero]
    rfl
  fraction := nofun
  exponent := nofun

/-- The integers that are kept as integers. -/
def InRange (n : Int) : Prop := -(signBit : Int) ≤ n ∧ n < wordSize

theorem value?_integerText {n : Int} (hn : InRange n) :
    (integerText n).value? = some (.integer n) := by
  obtain ⟨hlow, hhigh⟩ := hn
  have hfits : n.natAbs < wordSize := by
    unfold signBit at hlow
    unfold wordSize at hhigh ⊢
    omega
  have hgather := gather_toDigits hfits
  by_cases hneg : n < 0
  · have hzero : ¬ n.natAbs = 0 := by omega
    have hbit : ¬ signBit < n.natAbs := by omega
    have habs : -(n.natAbs : Int) = n := by omega
    simp [NumberText.value?, integerText, hgather, hneg, hzero, hbit, habs, -Nat.cast_natAbs]
  · have habs : (n.natAbs : Int) = n := by omega
    simp [NumberText.value?, integerText, hgather, hneg, habs, -Nat.cast_natAbs]

/-- An integer of 64 bits is read back as itself. -/
theorem readNumber_intChars {n : Int} (hn : InRange n) (hrest : EndsValue rest) :
    readNumber (intChars n ++ rest) = some (.integer n, rest) := by
  rw [readNumber, ← chars_integerText,
    NumberText.readNumberText_chars (wellFormed_integerText n) hrest, Option.bind_some]
  show (integerText n).value?.map _ = _
  rw [value?_integerText hn]
  rfl

end Integers

end LogQuery.Json
