import LogQuery.Proofs.Text.Decoding

/-!
# Characters and byte offsets

The first byte of a character tells that a character begins, and the others that one goes
on. So a text that is looked for in the bytes of another one is found where its characters
are and nowhere between, and a text can be cut at a byte offset exactly if a character ends
there.
-/

namespace LogQuery.Text

/-- How many bytes a text takes. -/
def byteLength (cs : List Char) : Nat := (encodeChars cs).length

/-- A byte inside a character. -/
def continuesChar (b : UInt8) : Bool := 0x80 ≤ b.toNat && b.toNat < 0xC0

/-- Cuts a text behind so many bytes, unless that is inside a character or behind the end. -/
def splitBytes? : Nat → List Char → Option (List Char × List Char)
  | 0, cs => some ([], cs)
  | _ + 1, [] => none
  | n + 1, c :: cs =>
    if c.utf8Size ≤ n + 1 then
      (splitBytes? (n + 1 - c.utf8Size) cs).map fun (front, rest) => (c :: front, rest)
    else none

/-- A byte offset at which a text can be cut. -/
def isBoundary (cs : List Char) (n : Nat) : Bool := (splitBytes? n cs).isSome

/-- The part of a text between two byte offsets, if a character ends at either. -/
def sliceBytes? (cs : List Char) (first last : Nat) : Option (List Char) :=
  (splitBytes? first cs).bind fun (_, rest) =>
    if first ≤ last then (splitBytes? (last - first) rest).map Prod.fst else none

variable {c : Char} {cs ds needle : List Char} {b : UInt8}

/-! ## Lengths -/

@[simp] theorem byteLength_nil : byteLength [] = 0 := rfl

@[simp] theorem byteLength_cons (c : Char) (cs : List Char) :
    byteLength (c :: cs) = c.utf8Size + byteLength cs := by
  rw [byteLength, encodeChars_cons, List.length_append, String.length_utf8EncodeChar]
  rfl

@[simp] theorem byteLength_append (cs ds : List Char) :
    byteLength (cs ++ ds) = byteLength cs + byteLength ds := by
  rw [byteLength, encodeChars_append, List.length_append]
  rfl

/-! ## Where characters begin -/

/-- A character has a first byte, and the others continue it. -/
theorem exists_encodeChar_eq (c : Char) : ∃ b bs, String.utf8EncodeChar c = b :: bs ∧
    continuesChar b = false ∧ ∀ d ∈ bs, continuesChar d = true := by
  have hinner : ∀ n, continuesChar (UInt8.ofNat (n % 64 + 128)) = true := by
    intro n
    have hn : (UInt8.ofNat (n % 64 + 128)).toNat = n % 64 + 128 := toNat_ofNat_byte (by omega)
    simp only [continuesChar, hn, Bool.and_eq_true, decide_eq_true_eq]
    omega
  have hfirst : ∀ n, n < 256 → n < 128 ∨ 192 ≤ n → continuesChar (UInt8.ofNat n) = false := by
    intro n hlt hn
    simp [continuesChar, toNat_ofNat_byte hlt]
    omega
  simp only [String.utf8EncodeChar]
  generalize c.val.toNat = v
  split
  · exact ⟨_, _, rfl, hfirst _ (by omega) (by omega), by simp⟩
  split
  · exact ⟨_, _, rfl, hfirst _ (by omega) (by omega), List.forall_mem_singleton.mpr (hinner _)⟩
  split
  · exact ⟨_, _, rfl, hfirst _ (by omega) (by omega),
      List.forall_mem_cons.mpr ⟨hinner _, List.forall_mem_singleton.mpr (hinner _)⟩⟩
  · exact ⟨_, _, rfl, hfirst _ (by omega) (by omega), List.forall_mem_cons.mpr ⟨hinner _,
      List.forall_mem_cons.mpr ⟨hinner _, List.forall_mem_singleton.mpr (hinner _)⟩⟩⟩

theorem decodeFrom?_encodeChars_append (cs : List Char) (bs : Bytes) :
    decodeFrom? none (encodeChars cs ++ bs) = (decodeFrom? none bs).map (cs ++ ·) := by
  induction cs with
  | nil => simp [encodeChars]
  | cons c cs ih =>
    rw [encodeChars_cons, List.append_assoc, decodeFrom?_encodeChar, ih, Option.map_map]
    rfl

/-- A text begins with another one when its bytes do. -/
theorem encodeChars_prefix_iff : encodeChars needle <+: encodeChars cs ↔ needle <+: cs := by
  constructor
  · rintro ⟨rest, hrest⟩
    have hdecode := decodeFrom?_encodeChars_append needle rest
    rw [hrest, ← decode?, decode?_encodeChars] at hdecode
    obtain ⟨more, -, hmore⟩ := Option.map_eq_some_iff.mp hdecode.symm
    exact ⟨more, hmore⟩
  · rintro ⟨rest, rfl⟩
    rw [encodeChars_append]
    exact List.prefix_append ..

/-! ## Cutting -/

theorem splitBytes?_append (cs ds : List Char) :
    splitBytes? (byteLength cs) (cs ++ ds) = some (cs, ds) := by
  induction cs with
  | nil => cases ds <;> rfl
  | cons c cs ih =>
    have hpos := c.utf8Size_pos
    obtain ⟨n, hn⟩ : ∃ n, c.utf8Size + byteLength cs = n + 1 :=
      ⟨c.utf8Size + byteLength cs - 1, by omega⟩
    rw [byteLength_cons, hn, List.cons_append, splitBytes?, if_pos (by omega), ← hn,
      Nat.add_sub_cancel_left, ih]
    rfl

theorem sliceBytes?_append (before cs after : List Char) :
    sliceBytes? (before ++ (cs ++ after)) (byteLength before) (byteLength before + byteLength cs) =
      some cs := by
  simp only [sliceBytes?, splitBytes?_append, Option.bind_some, Nat.le_add_right, if_true,
    Nat.add_sub_cancel_left, Option.map_some]

end LogQuery.Text
