import LogQuery.Text.Utf8

/-!
# Reading any bytes

Bytes that are valid UTF-8 are read as their text also where anything may follow. A byte
below 128 always stands for its own character, whatever is broken around it, and no other
bytes are read as that character.
-/

namespace LogQuery.Text

section Valid

variable {u : Option Unfinished} {v : Unfinished} {bs : Bytes} {cs : List Char} {b : UInt8}
  {c : Char}

theorem decodeLossyFrom_more (h : u.elim (firstByte b.toNat) (nextByte · b.toNat) = .more v)
    (bs : Bytes) : decodeLossyFrom u (b :: bs) = decodeLossyFrom (some v) bs := by
  cases u with
  | none =>
    rw [Option.elim_none] at h
    rw [decodeLossyFrom, h]
  | some u =>
    rw [Option.elim_some] at h
    rw [decodeLossyFrom, h]

theorem decodeLossyFrom_char (h : u.elim (firstByte b.toNat) (nextByte · b.toNat) = .char c)
    (bs : Bytes) : decodeLossyFrom u (b :: bs) = c :: decodeLossyFrom none bs := by
  cases u with
  | none =>
    rw [Option.elim_none] at h
    rw [decodeLossyFrom, h]
  | some u =>
    rw [Option.elim_some] at h
    rw [decodeLossyFrom, h]

/-- Valid bytes are read as their text, and then what follows them. -/
theorem decodeLossyFrom_append (h : decodeFrom? u bs = some cs) (rest : Bytes) :
    decodeLossyFrom u (bs ++ rest) = cs ++ decodeLossyFrom none rest := by
  induction bs generalizing u cs with
  | nil =>
    cases u with
    | none =>
      cases h
      rfl
    | some u => cases h
  | cons b bs ih =>
    rw [decodeFrom?] at h
    split at h
    next v hstep =>
      rw [List.cons_append, decodeLossyFrom_more hstep]
      exact ih h
    next c hstep =>
      obtain ⟨more, hmore, rfl⟩ := Option.map_eq_some_iff.mp h
      rw [List.cons_append, decodeLossyFrom_char hstep, ih hmore]
      rfl
    · cases h

theorem decodeFrom?_ascii (hb : b.toNat < 128) (bs : Bytes) :
    decodeFrom? none (b :: bs) = (decodeFrom? none bs).map (Char.ofNat b.toNat :: ·) := by
  have hfirst : firstByte b.toNat = .char (Char.ofNat b.toNat) := if_pos hb
  rw [decodeFrom?, Option.elim_none, hfirst]

/-- Bytes below 128 are read one by one. -/
theorem decode?_ascii (h : ∀ b ∈ bs, b.toNat < 128) :
    decode? bs = some (bs.map fun b => Char.ofNat b.toNat) := by
  unfold decode?
  induction bs with
  | nil => rfl
  | cons b bs ih =>
    obtain ⟨hb, hbs⟩ := List.forall_mem_cons.mp h
    rw [decodeFrom?_ascii hb, ih hbs]
    rfl

end Valid

section Ascii

variable {u : Option Unfinished} {bs : Bytes} {b : UInt8} {c : Char}

/-- Inside a character no byte below 128 is expected, and its code will not be below 128. -/
structure Unfinished.Wide (u : Unfinished) : Prop where
  low : 128 ≤ u.low
  bits : 2 ≤ u.bits ∨ 2 ≤ u.owed ∧ (1 ≤ u.bits ∨ 130 ≤ u.low)

theorem wide_of_firstByte {n : Nat} {v : Unfinished} (h : firstByte n = .more v) : v.Wide := by
  simp only [firstByte, Bool.and_eq_true, decide_eq_true_eq, beq_iff_eq] at h
  repeat' split at h
  all_goals first | (cases h; exact ⟨by dsimp only; omega, by dsimp only; omega⟩) | cases h

theorem wide_of_nextByte {n : Nat} {u v : Unfinished} (hu : u.Wide) (h : nextByte u n = .more v) :
    v.Wide := by
  simp only [nextByte, Bool.and_eq_true, decide_eq_true_eq] at h
  split at h
  · split at h
    · cases h
    · cases h
      obtain ⟨-, hbits⟩ := hu
      exact ⟨by dsimp only; omega, by dsimp only; omega⟩
  · cases h

theorem nextByte_reject {n : Nat} {u : Unfinished} (hu : u.Wide) (hn : n < 128) :
    nextByte u n = .reject := by
  have hlow : ¬ u.low ≤ n := Nat.not_le.mpr (Nat.lt_of_lt_of_le hn hu.low)
  simp [nextByte, hlow]

/-- What a byte completes is its own character, and otherwise none below 128 but that of
code 0. -/
def CompletedBy (b : UInt8) (c : Char) : Prop := c.toNat = b.toNat ∨ c.toNat = 0 ∨ 128 ≤ c.toNat

theorem toNat_ofNat (n : Nat) : (Char.ofNat n).toNat = n ∨ (Char.ofNat n).toNat = 0 := by
  by_cases h : n.isValidChar
  · left
    rw [Char.ofNat, dif_pos h]
    rfl
  · right
    rw [Char.ofNat, dif_neg h]
    rfl

theorem completedBy_replacement (b : UInt8) : CompletedBy b replacement := .inr (.inr (by decide))

theorem completedBy_firstByte (h : firstByte b.toNat = .char c) : CompletedBy b c := by
  unfold firstByte at h
  repeat' split at h
  all_goals first | (cases h; exact (toNat_ofNat _).imp_right .inl) | cases h

theorem completedBy_nextByte {v : Unfinished} (hv : v.Wide) (h : nextByte v b.toNat = .char c) :
    CompletedBy b c := by
  simp only [nextByte, Bool.and_eq_true, decide_eq_true_eq] at h
  split at h
  · split at h
    · obtain rfl := ByteStep.char.inj h
      obtain ⟨-, hbits⟩ := hv
      rcases toNat_ofNat (v.bits * 64 + (b.toNat - 128)) with hcode | hcode
      · exact .inr (.inr (by omega))
      · exact .inr (.inl hcode)
    · cases h
  · cases h

/-- After one byte the machine goes on from a state in which no byte below 128 is expected. -/
theorem exists_decodeLossyFrom_cons (hu : ∀ v ∈ u, Unfinished.Wide v) (b : UInt8) (bs : Bytes) :
    ∃ read u', (∀ v ∈ u', Unfinished.Wide v) ∧ (∀ c ∈ read, CompletedBy b c) ∧
      decodeLossyFrom u (b :: bs) = read ++ decodeLossyFrom u' bs := by
  have hfirst {v : Unfinished} (h : firstByte b.toNat = .more v) : ∀ w ∈ some v, w.Wide := by
    rintro w ⟨⟩
    exact wide_of_firstByte h
  have hbroken := completedBy_replacement b
  cases u with
  | none =>
    rw [decodeLossyFrom]
    split
    next v hstep => exact ⟨[], some v, hfirst hstep, nofun, rfl⟩
    next c hstep => exact ⟨[c], none, nofun, by simp [completedBy_firstByte hstep], rfl⟩
    · exact ⟨[replacement], none, nofun, by simp [hbroken], rfl⟩
  | some u =>
    rw [decodeLossyFrom]
    split
    next v hstep =>
      refine ⟨[], some v, ?_, nofun, rfl⟩
      rintro w ⟨⟩
      exact wide_of_nextByte (hu u rfl) hstep
    next c hstep => exact ⟨[c], none, nofun, by simp [completedBy_nextByte (hu u rfl) hstep], rfl⟩
    · split
      next v hstep => exact ⟨[replacement], some v, hfirst hstep, by simp [hbroken], rfl⟩
      next c hstep =>
        exact ⟨[replacement, c], none, nofun, by simp [hbroken, completedBy_firstByte hstep], rfl⟩
      · exact ⟨[replacement, replacement], none, nofun, by simp [hbroken], rfl⟩

theorem mem_decodeLossyFrom (hu : ∀ v ∈ u, Unfinished.Wide v) (hb : b.toNat < 128)
    (hmem : b ∈ bs) : Char.ofNat b.toNat ∈ decodeLossyFrom u bs := by
  induction bs generalizing u with
  | nil => cases hmem
  | cons c bs ih =>
    rcases List.mem_cons.mp hmem with rfl | hmem
    · have hfirst : firstByte b.toNat = .char (Char.ofNat b.toNat) := if_pos hb
      cases u with
      | none =>
        rw [decodeLossyFrom, hfirst]
        exact List.mem_cons_self
      | some u =>
        rw [decodeLossyFrom, nextByte_reject (hu u rfl) hb, hfirst]
        exact List.mem_cons_of_mem _ List.mem_cons_self
    · obtain ⟨read, u', hu', -, heq⟩ := exists_decodeLossyFrom_cons hu c bs
      rw [heq]
      exact List.mem_append_right read (ih hu' hmem)

/-- A byte below 128 stands for its own character wherever it is. -/
theorem mem_decodeLossy (hb : b.toNat < 128) (hmem : b ∈ bs) :
    Char.ofNat b.toNat ∈ decodeLossy bs :=
  mem_decodeLossyFrom nofun hb hmem

theorem exists_completedBy (hu : ∀ v ∈ u, Unfinished.Wide v) (hc : c ∈ decodeLossyFrom u bs) :
    c = replacement ∨ ∃ b ∈ bs, CompletedBy b c := by
  induction bs generalizing u with
  | nil =>
    cases u with
    | none => cases hc
    | some u => exact .inl (List.mem_singleton.mp hc)
  | cons b bs ih =>
    obtain ⟨read, u', hu', hread, heq⟩ := exists_decodeLossyFrom_cons hu b bs
    rw [heq] at hc
    rcases List.mem_append.mp hc with hc | hc
    · exact .inr ⟨b, List.mem_cons_self, hread c hc⟩
    · exact (ih hu' hc).imp_right fun ⟨b', hb', hcb⟩ => ⟨b', List.mem_cons_of_mem b hb', hcb⟩

/-- A character below 128 that is read comes from its own byte. -/
theorem exists_byte_of_mem_decodeLossy (hc : c ∈ decodeLossy bs) (hpos : 0 < c.toNat)
    (hlow : c.toNat < 128) : ∃ b ∈ bs, b.toNat = c.toNat := by
  have hwide : c ≠ replacement := by
    rintro rfl
    exact absurd hlow (by decide)
  obtain ⟨b, hb, hown | hzero | hhigh⟩ := (exists_completedBy (u := none) nofun hc).resolve_left hwide
  · exact ⟨b, hb, hown.symm⟩
  · omega
  · omega

end Ascii

end LogQuery.Text
