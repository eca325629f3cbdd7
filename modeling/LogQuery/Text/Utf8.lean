/-!
# UTF-8

Log files are byte strings and records are texts. `decode?` reads a byte string
that is valid UTF-8 and nothing else; `decodeLossy` reads every byte string and
puts U+FFFD for each maximal run of bytes that begins a character without
finishing it. Both run the same byte-at-a-time machine, so they differ only in
what they do when it rejects a byte.
-/

namespace LogQuery.Text

/-- The content of a file, or a part of it. -/
abbrev Bytes := List UInt8

/-- UTF-8 form of a text. -/
def encodeChars (cs : List Char) : Bytes := cs.flatMap String.utf8EncodeChar

/-- UTF-8 form of a text. -/
def encode (s : String) : Bytes := encodeChars s.toList

/-- A character of which `owed` bytes are still to come; the next one lies in `[low, high]`. -/
structure Unfinished where
  owed : Nat
  low : Nat
  high : Nat
  bits : Nat

/-- What one byte does to the machine. -/
inductive ByteStep
  | more (u : Unfinished)
  | char (c : Char)
  | reject

/-- A byte between characters. -/
def firstByte (b : Nat) : ByteStep :=
  if b < 0x80 then .char (Char.ofNat b)
  else if 0xC2 ≤ b && b ≤ 0xDF then .more ⟨1, 0x80, 0xBF, b - 0xC0⟩
  else if b == 0xE0 then .more ⟨2, 0xA0, 0xBF, 0⟩
  else if b == 0xED then .more ⟨2, 0x80, 0x9F, 0xD⟩
  else if 0xE1 ≤ b && b ≤ 0xEF then .more ⟨2, 0x80, 0xBF, b - 0xE0⟩
  else if b == 0xF0 then .more ⟨3, 0x90, 0xBF, 0⟩
  else if 0xF1 ≤ b && b ≤ 0xF3 then .more ⟨3, 0x80, 0xBF, b - 0xF0⟩
  else if b == 0xF4 then .more ⟨3, 0x80, 0x8F, 4⟩
  else .reject

/-- A byte inside a character. -/
def nextByte (u : Unfinished) (b : Nat) : ByteStep :=
  if u.low ≤ b && b ≤ u.high then
    let bits := u.bits * 64 + (b - 0x80)
    if u.owed ≤ 1 then .char (Char.ofNat bits) else .more ⟨u.owed - 1, 0x80, 0xBF, bits⟩
  else .reject

def replacement : Char := Char.ofNat 0xFFFD

/-- Reads valid UTF-8, starting inside a character if one is given. -/
def decodeFrom? : Option Unfinished → Bytes → Option (List Char)
  | none, [] => some []
  | some _, [] => none
  | u, b :: bs =>
    match u.elim (firstByte b.toNat) (nextByte · b.toNat) with
    | .more u' => decodeFrom? (some u') bs
    | .char c => (decodeFrom? none bs).map (c :: ·)
    | .reject => none

/-- The text a byte string is the UTF-8 form of, if it is one. -/
def decode? (bs : Bytes) : Option (List Char) := decodeFrom? none bs

/-- Reads any byte string, starting inside a character if one is given. A byte
that breaks off a character is read again as the beginning of the next one. -/
def decodeLossyFrom : Option Unfinished → Bytes → List Char
  | none, [] => []
  | some _, [] => [replacement]
  | none, b :: bs =>
    match firstByte b.toNat with
    | .more u => decodeLossyFrom (some u) bs
    | .char c => c :: decodeLossyFrom none bs
    | .reject => replacement :: decodeLossyFrom none bs
  | some u, b :: bs =>
    match nextByte u b.toNat with
    | .more u' => decodeLossyFrom (some u') bs
    | .char c => c :: decodeLossyFrom none bs
    | .reject =>
      match firstByte b.toNat with
      | .more u' => replacement :: decodeLossyFrom (some u') bs
      | .char c => replacement :: c :: decodeLossyFrom none bs
      | .reject => replacement :: replacement :: decodeLossyFrom none bs

/-- The text of a byte string, with U+FFFD for what is not UTF-8. -/
def decodeLossy (bs : Bytes) : List Char := decodeLossyFrom none bs

end LogQuery.Text
