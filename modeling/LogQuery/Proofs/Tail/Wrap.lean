import LogQuery.Record.Line
import LogQuery.Tail.Wrap
import LogQuery.Proofs.Json.Rereading
import LogQuery.Proofs.Text.Decoding

/-!
# Wrapped lines as records

A wrapped line is written as one object around what the line holds, so its record is nested
one level deeper than the line. A line that is an object nested as deep as can be read is
therefore wrapped into a text that is no record, and every other line into one.
-/

namespace LogQuery.Tail

open LogQuery.Json LogQuery.Text LogQuery.Record

section Records

/-- Nothing is trimmed from bytes that begin and end with a brace. -/
theorem trimBy_braces (bs : Bytes) :
    trimBy isBlankByte (123 :: bs ++ [125]) = 123 :: bs ++ [125] := by
  have hopen : isBlankByte 123 = false := by decide
  have hclose : isBlankByte 125 = false := by decide
  simp [trimBy, hopen, hclose]

/-- The compact form of an object is a line with the record that is read of it. -/
theorem ofLine?_text {members : List (String × Value)} :
    ofLine? (encode (Value.object members).text) = parse? (Value.object members).chars := by
  have hbytes : encode (Value.object members).text =
      123 :: encodeChars (commaChars (membersChars members)) ++ [125] := by
    rw [encode, Value.text, String.toList_ofList, Value.chars, encodeChars_append]
    rfl
  have hdecode : decode? (encode (Value.object members).text) =
      some (Value.object members).chars := by
    rw [encode, Value.text, String.toList_ofList, decode?_encodeChars]
  have htrim : trimBy isBlankByte (encode (Value.object members).text) =
      encode (Value.object members).text := by
    rw [hbytes, trimBy_braces]
  have hne : (encode (Value.object members).text).isEmpty = false := by
    rw [hbytes]
    rfl
  rw [ofLine?, htrim, hne, hdecode]
  rfl

end Records

section Lines

variable (hostname time : String) (line : Bytes)

/-- The record around a value. -/
def around (v : Value) : Value :=
  .object [("hostname", .string hostname), ("line", v), ("time", .string time)]

theorem record_eq : record hostname time line = around hostname time (content line) := by
  have hfirst : ¬ ("hostname" == "time") = true ∧ "hostname" < "time" := by decide
  have hsecond : ¬ ("line" == "hostname") = true ∧ ¬ "line" < "hostname" := by decide
  have hthird : ¬ ("line" == "time") = true ∧ "line" < "time" := by decide
  simp only [record, Value.ofMembers, List.foldl_cons, List.foldl_nil, insertMember,
    if_neg hfirst.1, if_pos hfirst.2, if_neg hsecond.1, if_neg hsecond.2, if_neg hthird.1,
    if_pos hthird.2]
  rfl

theorem ascending_around (v : Value) :
    Ascending [("hostname", .string hostname), ("line", v), ("time", .string time)] := by
  have hline : "hostname" < "line" := by decide
  have htime : "line" < "time" := by decide
  have hlast : "hostname" < "time" := String.lt_trans hline htime
  refine List.Pairwise.cons ?_ (List.Pairwise.cons ?_ (List.pairwise_singleton _ _))
  · exact List.forall_mem_cons.mpr ⟨hline, List.forall_mem_singleton.mpr hlast⟩
  · exact List.forall_mem_singleton.mpr htime

theorem wellFormed_around {v : Value} (hv : v.WellFormed) :
    (around hostname time v).WellFormed := by
  apply Value.WellFormed.object (ascending_around hostname time v)
  simp only [List.forall_mem_cons]
  exact ⟨.string hostname, hv, .string time, List.forall_mem_nil _⟩

theorem nesting_around (v : Value) : (around hostname time v).nesting = v.nesting + 1 := by
  simp [around, Value.nesting, nestingOfMembers]

/-- What a line holds can be read, or is a text. -/
theorem wellFormed_content : (content line).WellFormed ∧ (content line).nesting ≤ maxDepth := by
  rw [content]
  split
  next members hparse => exact wellFormed_of_parse? hparse
  next => exact ⟨.string _, Nat.zero_le _⟩

/-- A wrapped line is a record unless the line is nested as deep as can be read. -/
theorem ofLine?_wrapLine_content : ofLine? (encode (wrapLine hostname time line)) =
    if (content line).nesting = maxDepth then none
    else some (around hostname time (content line).reread) := by
  obtain ⟨hwell, hnesting⟩ := wellFormed_content line
  rw [wrapLine, record_eq, around, ofLine?_text, ← around,
    parse?_chars (wellFormed_around hostname time hwell), nesting_around]
  by_cases hdeep : (content line).nesting = maxDepth
  · rw [if_pos hdeep, if_neg (by omega)]
  · rw [if_neg hdeep, if_pos (by omega)]
    rfl

/-- A wrapped line is a record unless it is an object nested as deep as can be read: around
what is read of the object again if it is one, and around its text if it is not. -/
theorem ofLine?_wrapLine : ofLine? (encode (wrapLine hostname time line)) =
    match parse? (decodeLossy line) with
    | some (.object members) =>
      if (Value.object members).nesting = maxDepth then none
      else some (around hostname time (Value.object members).reread)
    | _ => some (around hostname time (.string (String.ofList (decodeLossy line)))) := by
  have htext : ∀ s, (Value.string s).nesting ≠ maxDepth := fun _ => Nat.zero_ne_add_one 126
  rw [ofLine?_wrapLine_content, content]
  cases parse? (decodeLossy line) with
  | none => exact if_neg (htext _)
  | some v =>
    cases v with
    | object members => rfl
    | _ => exact if_neg (htext _)

end Lines

/-- One in 127 objects, each the only member of the next. -/
def deepLine : Bytes :=
  (List.replicate 127 (encodeChars ['\x7b', '"', 'a', '"', ':'])).flatten ++
    encodeChars ['1'] ++ List.replicate 127 125

/-- A line that is an object but is lost when it is wrapped. -/
theorem deepLine_lost : (∃ members, parse? (decodeLossy deepLine) = some (.object members)) ∧
    ofLine? (encode (wrapLine "box-1" "2024-05-01T12:00:00+00:00" deepLine)) = none := by
  have hnesting : (content deepLine).nesting = maxDepth := by decide +kernel
  constructor
  · rw [content] at hnesting
    split at hnesting
    next members hparse => exact ⟨members, hparse⟩
    next => cases hnesting
  · rw [ofLine?_wrapLine_content, if_pos hnesting]

end LogQuery.Tail
