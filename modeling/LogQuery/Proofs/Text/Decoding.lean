import LogQuery.Proofs.Text.Encoding
import Mathlib.Tactic.IntervalCases

/-!
# Decoding encoded texts

The bytes of a character take the machine from one character to the next: the first byte
tells how many follow and bears the highest bits, and every other byte bears six more. So
decoding gives back every text that was encoded. It reads nothing else: the bytes that bring
the machine into a character begin every character that it can complete from there.
-/

namespace LogQuery.Text

section Bytes

theorem firstByte_two {lead : Nat} (hlow : 2 ≤ lead) (hhigh : lead < 32) :
    firstByte (lead + 0xC0) = .more ⟨1, 0x80, 0xBF, lead⟩ := by
  interval_cases lead <;> rfl

/-- After the first of three bytes, short forms and surrogates are left out. -/
theorem firstByte_three {lead : Nat} (h : lead < 16) : firstByte (lead + 0xE0) =
    .more ⟨2, if lead = 0 then 0xA0 else 0x80, if lead = 13 then 0x9F else 0xBF, lead⟩ := by
  interval_cases lead <;> rfl

/-- After the first of four bytes, short forms and what is no character are left out. -/
theorem firstByte_four {lead : Nat} (h : lead < 5) : firstByte (lead + 0xF0) =
    .more ⟨3, if lead = 0 then 0x90 else 0x80, if lead = 4 then 0x8F else 0xBF, lead⟩ := by
  interval_cases lead <;> rfl

theorem toNat_ofNat_byte {n : Nat} (h : n < 256) : (UInt8.ofNat n).toNat = n := by
  rw [UInt8.toNat_ofNat']
  exact Nat.mod_eq_of_lt h

variable {u : Unfinished} {n : Nat}

theorem nextByte_inner (howed : 2 ≤ u.owed) (hlow : u.low ≤ n + 0x80)
    (hhigh : n + 0x80 ≤ u.high) :
    nextByte u (n + 0x80) = .more ⟨u.owed - 1, 0x80, 0xBF, u.bits * 64 + n⟩ := by
  have hbits : n + 0x80 - 0x80 = n := by omega
  have hmore : ¬ u.owed ≤ 1 := by omega
  simp [nextByte, hbits, hmore, hlow, hhigh]

theorem nextByte_last (howed : u.owed = 1) (hlow : u.low ≤ n + 0x80)
    (hhigh : n + 0x80 ≤ u.high) : nextByte u (n + 0x80) = .char (Char.ofNat (u.bits * 64 + n)) := by
  have hbits : n + 0x80 - 0x80 = n := by omega
  simp [nextByte, hbits, howed, hlow, hhigh]

theorem decodeFrom?_first (hn : n < 256) (h : firstByte n = .more u) (bs : Bytes) :
    decodeFrom? none (UInt8.ofNat n :: bs) = decodeFrom? (some u) bs := by
  rw [← toNat_ofNat_byte hn] at h
  simp only [decodeFrom?, Option.elim_none, h]

/-- A byte that is not the last one of its character bears six bits. -/
theorem decodeFrom?_inner (howed : 2 ≤ u.owed) (hlow : u.low ≤ n % 64 + 0x80)
    (hhigh : n % 64 + 0x80 ≤ u.high) (bs : Bytes) :
    decodeFrom? (some u) (UInt8.ofNat (n % 64 + 0x80) :: bs) =
      decodeFrom? (some ⟨u.owed - 1, 0x80, 0xBF, u.bits * 64 + n % 64⟩) bs := by
  have h := nextByte_inner howed hlow hhigh
  rw [← toNat_ofNat_byte (show n % 64 + 0x80 < 256 by omega)] at h
  simp only [decodeFrom?, Option.elim_some, h]

/-- The last byte of a character completes it. -/
theorem decodeFrom?_last (howed : u.owed = 1) (hlow : u.low ≤ n % 64 + 0x80)
    (hhigh : n % 64 + 0x80 ≤ u.high) (bs : Bytes) :
    decodeFrom? (some u) (UInt8.ofNat (n % 64 + 0x80) :: bs) =
      (decodeFrom? none bs).map (Char.ofNat (u.bits * 64 + n % 64) :: ·) := by
  have h := nextByte_last howed hlow hhigh
  rw [← toNat_ofNat_byte (show n % 64 + 0x80 < 256 by omega)] at h
  simp only [decodeFrom?, Option.elim_some, h]

end Bytes

/-- The bytes of a character are read as the character. -/
theorem decodeFrom?_encodeChar (c : Char) (bs : Bytes) :
    decodeFrom? none (String.utf8EncodeChar c ++ bs) = (decodeFrom? none bs).map (c :: ·) := by
  have hvalid : c.toNat < 0xD800 ∨ 0xDFFF < c.toNat ∧ c.toNat < 0x110000 := c.valid
  have hchar : Char.ofNat c.toNat = c := Char.ofNat_toNat c
  have hval : c.val.toNat = c.toNat := rfl
  simp only [String.utf8EncodeChar, hval]
  generalize c.toNat = v at hvalid hchar
  by_cases hone : v ≤ 0x7F
  · rw [if_pos hone]
    have hfirst : firstByte v = .char c := by rw [firstByte, if_pos (by omega), hchar]
    rw [← toNat_ofNat_byte (show v < 256 by omega)] at hfirst
    simp only [List.cons_append, List.nil_append, decodeFrom?, Option.elim_none, hfirst]
  rw [if_neg hone]
  by_cases htwo : v ≤ 0x7FF
  · rw [if_pos htwo]
    have hfirst := firstByte_two (show 2 ≤ v / 64 % 32 by omega) (show v / 64 % 32 < 32 by omega)
    have hsum : v / 64 % 32 * 64 + v % 64 = v := by omega
    simp only [List.cons_append, List.nil_append]
    rw [decodeFrom?_first (by omega) hfirst, decodeFrom?_last rfl (by simp) (by simp; omega), hsum,
      hchar]
  rw [if_neg htwo]
  by_cases hthree : v ≤ 0xFFFF
  · rw [if_pos hthree]
    have hfirst := firstByte_three (show v / 4096 % 16 < 16 by omega)
    have hsum : (v / 4096 % 16 * 64 + v / 64 % 64) * 64 + v % 64 = v := by omega
    simp only [List.cons_append, List.nil_append]
    rw [decodeFrom?_first (by omega) hfirst, decodeFrom?_inner (Nat.le_refl 2),
      decodeFrom?_last rfl (by simp) (by simp; omega), hsum, hchar]
    · show (if v / 4096 % 16 = 0 then 0xA0 else 0x80) ≤ v / 64 % 64 + 0x80
      split <;> omega
    · show v / 64 % 64 + 0x80 ≤ if v / 4096 % 16 = 13 then 0x9F else 0xBF
      split <;> omega
  · rw [if_neg hthree]
    have hfirst := firstByte_four (show v / 262144 % 8 < 5 by omega)
    have hsum : ((v / 262144 % 8 * 64 + v / 4096 % 64) * 64 + v / 64 % 64) * 64 + v % 64 = v := by
      omega
    simp only [List.cons_append, List.nil_append]
    rw [decodeFrom?_first (by omega) hfirst, decodeFrom?_inner (by simp),
      decodeFrom?_inner (Nat.le_refl 2) (by simp) (by simp; omega),
      decodeFrom?_last rfl (by simp) (by simp; omega), hsum, hchar]
    · show (if v / 262144 % 8 = 0 then 0x90 else 0x80) ≤ v / 4096 % 64 + 0x80
      split <;> omega
    · show v / 4096 % 64 + 0x80 ≤ if v / 262144 % 8 = 4 then 0x8F else 0xBF
      split <;> omega

/-- Decoding undoes encoding. -/
theorem decode?_encodeChars (cs : List Char) : decode? (encodeChars cs) = some cs := by
  unfold decode?
  induction cs with
  | nil => rfl
  | cons c cs ih =>
    rw [encodeChars, List.flatMap_cons, decodeFrom?_encodeChar, ← encodeChars, ih]
    rfl

section Inverse

/-- The last bytes of a character, which bear six bits each. -/
def trailing : (owed v : Nat) → Bytes
  | 0, _ => []
  | owed + 1, v => UInt8.ofNat (v / 64 ^ owed % 64 + 0x80) :: trailing owed v

/-- Some bytes begin every character that can still be completed after them: those of which
the highest bits are known, and the next six as far as they are confined. -/
structure Begins (bs : Bytes) (u : Unfinished) : Prop where
  owed : 1 ≤ u.owed
  low : 0x80 ≤ u.low
  high : u.high ≤ 0xBF
  bytes : ∀ v, v / 64 ^ u.owed = u.bits → u.low ≤ v / 64 ^ (u.owed - 1) % 64 + 0x80 →
    v / 64 ^ (u.owed - 1) % 64 + 0x80 ≤ u.high →
      String.utf8EncodeChar (Char.ofNat v) = bs ++ trailing u.owed v

variable {lead low high : Nat}

theorem toNat_ofNat_valid {v : Nat} (h : v < 0xD800 ∨ 0xDFFF < v ∧ v < 0x110000) :
    (Char.ofNat v).val.toNat = v := by
  rw [Char.ofNat, dif_pos h]
  rfl

theorem begins_two (hlow : 2 ≤ lead) (hhigh : lead < 32) :
    Begins [UInt8.ofNat (lead + 0xC0)] ⟨1, 0x80, 0xBF, lead⟩ := by
  refine ⟨Nat.le_refl 1, by simp, by simp, fun v hv _ _ => ?_⟩
  simp only [pow_one] at hv
  have hfirst : v / 64 % 32 = lead := by omega
  rw [String.utf8EncodeChar, toNat_ofNat_valid (by omega)]
  simp only
  rw [if_neg (by omega), if_pos (by omega), hfirst]
  simp [trailing]

theorem begins_three (hlead : lead < 16) (hlow : 0x80 ≤ low) (hhigh : high ≤ 0xBF)
    (hlong : lead = 0 → 0xA0 ≤ low) (hvalid : lead = 13 → high ≤ 0x9F) :
    Begins [UInt8.ofNat (lead + 0xE0)] ⟨2, low, high, lead⟩ := by
  refine ⟨by simp, hlow, hhigh, fun v hv hl hh => ?_⟩
  simp only [Nat.reducePow, Nat.reduceSub] at hv hl hh
  have hfirst : v / 4096 % 16 = lead := by omega
  rw [String.utf8EncodeChar, toNat_ofNat_valid (by omega)]
  simp only
  rw [if_neg (by omega), if_neg (by omega), if_pos (by omega), hfirst]
  simp [trailing]

theorem begins_four (hlead : lead < 5) (hlow : 0x80 ≤ low) (hhigh : high ≤ 0xBF)
    (hlong : lead = 0 → 0x90 ≤ low) (hvalid : lead = 4 → high ≤ 0x8F) :
    Begins [UInt8.ofNat (lead + 0xF0)] ⟨3, low, high, lead⟩ := by
  refine ⟨by simp, hlow, hhigh, fun v hv hl hh => ?_⟩
  simp only [Nat.reducePow, Nat.reduceSub] at hv hl hh
  have hfirst : v / 262144 % 8 = lead := by omega
  rw [String.utf8EncodeChar, toNat_ofNat_valid (by omega)]
  simp only
  rw [if_neg (by omega), if_neg (by omega), if_neg (by omega), hfirst]
  simp [trailing]

theorem begins_first {n : Nat} {u : Unfinished} (h : firstByte n = .more u) :
    Begins [UInt8.ofNat n] u := by
  simp only [firstByte, Bool.and_eq_true, decide_eq_true_eq, beq_iff_eq] at h
  repeat' split at h
  all_goals cases h
  · obtain ⟨lead, rfl⟩ := Nat.exists_eq_add_of_le' (show 0xC0 ≤ n by omega)
    rw [Nat.add_sub_cancel]
    exact begins_two (by omega) (by omega)
  · subst n
    exact begins_three (by decide) (by decide) (by decide) (by decide) (by decide)
  · subst n
    exact begins_three (by decide) (by decide) (by decide) (by decide) (by decide)
  · obtain ⟨lead, rfl⟩ := Nat.exists_eq_add_of_le' (show 0xE0 ≤ n by omega)
    rw [Nat.add_sub_cancel]
    exact begins_three (by omega) (by decide) (by decide) (by omega) (by omega)
  · subst n
    exact begins_four (by decide) (by decide) (by decide) (by decide) (by decide)
  · obtain ⟨lead, rfl⟩ := Nat.exists_eq_add_of_le' (show 0xF0 ≤ n by omega)
    rw [Nat.add_sub_cancel]
    exact begins_four (by omega) (by decide) (by decide) (by omega) (by omega)
  · subst n
    exact begins_four (by decide) (by decide) (by decide) (by decide) (by decide)

theorem Begins.more {bs : Bytes} {b : UInt8} {u w : Unfinished} (h : Begins bs u)
    (hb : nextByte u b.toNat = .more w) : Begins (bs ++ [b]) w := by
  obtain ⟨owed, low, high, bits⟩ := u
  obtain ⟨hpos, hlow, hhigh, hbytes⟩ := h
  simp only [nextByte, Bool.and_eq_true, decide_eq_true_eq] at hpos hlow hhigh hbytes hb
  split at hb
  next hrange =>
    split at hb
    next => cases hb
    next howed =>
      cases hb
      obtain ⟨owed, rfl⟩ := Nat.exists_eq_add_of_le' (show 2 ≤ owed by omega)
      change Begins (bs ++ [b]) ⟨owed + 1, 0x80, 0xBF, bits * 64 + (b.toNat - 0x80)⟩
      refine ⟨Nat.le_add_left 1 owed, Nat.le_refl _, Nat.le_refl _, fun v hv _ _ => ?_⟩
      simp only at hv
      have hbits : v / 64 ^ (owed + 2) = bits := by
        rw [pow_succ, ← Nat.div_div_eq_div_mul, hv]
        omega
      -- the byte is the one that every character with these bits has here
      have hsix : v / 64 ^ (owed + 1) % 64 + 0x80 = b.toNat := by omega
      have hall := hbytes v hbits (hsix ▸ hrange.1) (hsix ▸ hrange.2)
      rw [hall, trailing, hsix, UInt8.ofNat_toNat, List.append_assoc]
      rfl
  next => cases hb

theorem Begins.char {bs : Bytes} {b : UInt8} {u : Unfinished} {c : Char} (h : Begins bs u)
    (hb : nextByte u b.toNat = .char c) : String.utf8EncodeChar c = bs ++ [b] := by
  obtain ⟨owed, low, high, bits⟩ := u
  obtain ⟨hpos, hlow, hhigh, hbytes⟩ := h
  simp only [nextByte, Bool.and_eq_true, decide_eq_true_eq] at hpos hlow hhigh hbytes hb
  split at hb
  next hrange =>
    split at hb
    next howed =>
      obtain rfl := ByteStep.char.inj hb
      obtain rfl : owed = 1 := Nat.le_antisymm howed hpos
      have hbits : (bits * 64 + (b.toNat - 0x80)) / 64 ^ 1 = bits := by omega
      have hsix : (bits * 64 + (b.toNat - 0x80)) / 64 ^ 0 % 64 + 0x80 = b.toNat := by omega
      have hall := hbytes _ hbits (by rw [hsix]; exact hrange.1) (by rw [hsix]; exact hrange.2)
      rw [hall, trailing, hsix, UInt8.ofNat_toNat]
      rfl
    next => cases hb
  next => cases hb

theorem encodeChar_of_firstByte {b : UInt8} {c : Char} (h : firstByte b.toNat = .char c) :
    String.utf8EncodeChar c = [b] := by
  have hascii : b.toNat < 128 ∧ Char.ofNat b.toNat = c := by
    simp only [firstByte] at h
    repeat' split at h
    all_goals cases h
    exact ⟨by assumption, rfl⟩
  obtain ⟨hb, rfl⟩ := hascii
  have hnat : (Char.ofNat b.toNat).toNat = b.toNat := toNat_ofNat_valid (by omega)
  rw [encodeChar_ascii (by omega), hnat, UInt8.ofNat_toNat]

/-- What is read is what was encoded, with the bytes that have brought the machine into its
first character. -/
theorem encodeChars_of_decodeFrom? {u : Option Unfinished} {before bs : Bytes} {cs : List Char}
    (hu : u.elim (before = []) (Begins before)) (h : decodeFrom? u bs = some cs) :
    encodeChars cs = before ++ bs := by
  have between : (none : Option Unfinished).elim (([] : Bytes) = []) (Begins []) := rfl
  induction bs generalizing u before cs with
  | nil =>
    cases u with
    | none =>
      cases h
      exact (List.append_eq_nil_iff.mpr ⟨hu, rfl⟩).symm
    | some u => cases h
  | cons b bs ih =>
    rw [decodeFrom?] at h
    split at h
    next v hstep =>
      have hbegins : Begins (before ++ [b]) v := by
        cases u with
        | none =>
          obtain rfl : before = [] := hu
          have hfirst := begins_first hstep
          rwa [UInt8.ofNat_toNat] at hfirst
        | some u => exact Begins.more hu hstep
      rw [ih (u := some v) hbegins h, List.append_assoc]
      rfl
    next c hstep =>
      obtain ⟨more, hmore, rfl⟩ := Option.map_eq_some_iff.mp h
      have hchar : String.utf8EncodeChar c = before ++ [b] := by
        cases u with
        | none =>
          obtain rfl : before = [] := hu
          exact encodeChar_of_firstByte hstep
        | some u => exact Begins.char hu hstep
      rw [encodeChars_cons, hchar, ih between hmore, List.append_assoc]
      rfl
    · cases h

/-- Encoding undoes decoding. -/
theorem encodeChars_of_decode? {bs : Bytes} {cs : List Char} (h : decode? bs = some cs) :
    encodeChars cs = bs := by
  have between : (none : Option Unfinished).elim (([] : Bytes) = []) (Begins []) := rfl
  exact encodeChars_of_decodeFrom? between h

end Inverse

end LogQuery.Text
