import Mathlib.Data.List.Induction
import LogQuery.Text.Terminator

/-!
# Characters in encoded texts

A character below 128 is encoded as one byte, and no other character has a byte below
128. So such a character can be looked for in the bytes of a text: a line feed is where
the text has one, and the last byte is a carriage return when the last character is.
-/

namespace LogQuery.Text

section Characters

variable {c d : Char}

theorem encodeChar_ascii (h : c.toNat < 128) :
    String.utf8EncodeChar c = [UInt8.ofNat c.toNat] := by
  have hle : c.val.toNat ≤ 127 := Nat.le_of_lt_succ h
  rw [String.utf8EncodeChar]
  exact if_pos hle

/-- The bytes of a character that takes more than one. -/
theorem le_of_mem_encodeChar (h : 128 ≤ c.toNat) {b : UInt8} (hb : b ∈ String.utf8EncodeChar c) :
    128 ≤ b.toNat := by
  have hgt : ¬ c.val.toNat ≤ 127 := Nat.not_le.mpr h
  simp only [String.utf8EncodeChar, if_neg hgt] at hb
  -- two, three or four bytes, all with their highest bit set
  split at hb
  · simp only [List.mem_cons, List.not_mem_nil, or_false] at hb
    rcases hb with rfl | rfl <;> simp only [UInt8.toNat_ofNat'] <;> omega
  · split at hb
    · simp only [List.mem_cons, List.not_mem_nil, or_false] at hb
      rcases hb with rfl | rfl | rfl <;> simp only [UInt8.toNat_ofNat'] <;> omega
    · simp only [List.mem_cons, List.not_mem_nil, or_false] at hb
      rcases hb with rfl | rfl | rfl | rfl <;> simp only [UInt8.toNat_ofNat'] <;> omega

theorem toNat_ofNat_ascii (h : d.toNat < 128) : (UInt8.ofNat d.toNat).toNat = d.toNat := by
  rw [UInt8.toNat_ofNat']
  exact Nat.mod_eq_of_lt (by omega)

/-- The byte of a character below 128 is a byte of this character only. -/
theorem mem_encodeChar_ascii (h : d.toNat < 128) :
    UInt8.ofNat d.toNat ∈ String.utf8EncodeChar c ↔ c = d := by
  constructor
  · intro hmem
    have hc : c.toNat < 128 := by
      by_contra hc
      have hle := le_of_mem_encodeChar (Nat.le_of_not_lt hc) hmem
      rw [toNat_ofNat_ascii h] at hle
      omega
    rw [encodeChar_ascii hc, List.mem_singleton] at hmem
    have hnat : d.toNat = c.toNat := by
      rw [← toNat_ofNat_ascii h, hmem, toNat_ofNat_ascii hc]
    exact Char.toNat_inj.mp hnat.symm
  · rintro rfl
    rw [encodeChar_ascii h]
    exact List.mem_singleton_self _

end Characters

section Texts

variable {cs : List Char} {d : Char}

@[simp] theorem encodeChars_append (cs ds : List Char) :
    encodeChars (cs ++ ds) = encodeChars cs ++ encodeChars ds :=
  List.flatMap_append

@[simp] theorem encodeChars_cons (c : Char) (cs : List Char) :
    encodeChars (c :: cs) = String.utf8EncodeChar c ++ encodeChars cs :=
  List.flatMap_cons

@[simp] theorem encodeChars_singleton (c : Char) : encodeChars [c] = String.utf8EncodeChar c :=
  List.flatMap_singleton ..

@[simp] theorem encode_append (s t : String) : encode (s ++ t) = encode s ++ encode t := by
  rw [encode, String.toList_append, encodeChars_append]
  rfl

theorem mem_encodeChars_ascii (h : d.toNat < 128) :
    UInt8.ofNat d.toNat ∈ encodeChars cs ↔ d ∈ cs := by
  rw [encodeChars, List.mem_flatMap]
  constructor
  · rintro ⟨c, hc, hmem⟩
    rwa [← (mem_encodeChar_ascii h).mp hmem]
  · exact fun hd => ⟨d, hd, (mem_encodeChar_ascii h).mpr rfl⟩

theorem getLast?_encodeChars_ascii (h : d.toNat < 128)
    (hlast : (encodeChars cs).getLast? = some (UInt8.ofNat d.toNat)) : cs.getLast? = some d := by
  induction cs using List.reverseRecOn with
  | nil => cases hlast
  | append_singleton cs c =>
    have hbyte : (String.utf8EncodeChar c).getLast? = some (UInt8.ofNat d.toNat) := by
      rw [← hlast, encodeChars_append, encodeChars_singleton, List.getLast?_append,
        List.getLast?_eq_some_getLast String.utf8EncodeChar_ne_nil]
      rfl
    rw [List.getLast?_concat, (mem_encodeChar_ascii h).mp (List.mem_of_getLast? hbyte)]

/-- A character below 128 is dropped from the end of a text as its byte from the end of the
bytes. -/
theorem encodeChars_dropLastIf (h : d.toNat < 128) (cs : List Char) :
    encodeChars (dropLastIf d cs) = dropLastIf (UInt8.ofNat d.toNat) (encodeChars cs) := by
  by_cases hlast : cs.getLast? = some d
  · obtain ⟨before, rfl⟩ := List.getLast?_eq_some_iff.mp hlast
    rw [encodeChars_append, encodeChars_singleton, encodeChar_ascii h]
    simp [dropLastIf]
  · have hbyte : (encodeChars cs).getLast? ≠ some (UInt8.ofNat d.toNat) :=
      fun hbyte => hlast (getLast?_encodeChars_ascii h hbyte)
    rw [dropLastIf, dropLastIf, if_neg (by simpa using hlast), if_neg (by simpa using hbyte)]

theorem encodeChars_stripTerminator (cs : List Char) :
    encodeChars (stripTerminator cs) = stripTerminatorBytes (encodeChars cs) := by
  rw [stripTerminator, encodeChars_dropLastIf (by decide), encodeChars_dropLastIf (by decide)]
  rfl

/-- Texts with a separator between them are encoded one by one. -/
theorem encode_intercalate (separator : String) (texts : List String) :
    encode (separator.intercalate texts) = (encode separator).intercalate (texts.map encode) := by
  induction texts with
  | nil => rfl
  | cons text texts ih =>
    cases texts with
    | nil => simp
    | cons next texts =>
      rw [String.intercalate_cons_cons, encode_append, encode_append, ih]
      simp only [List.map_cons, List.intercalate_cons_cons]

end Texts

end LogQuery.Text
