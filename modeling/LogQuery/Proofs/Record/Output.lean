import LogQuery.Record.Line
import LogQuery.Record.Output
import LogQuery.Proofs.Json.Written
import LogQuery.Proofs.Record.Places
import LogQuery.Proofs.Text.Decoding
import LogQuery.Proofs.Text.Lossy

/-!
# Outputs as JSON

The output of a matched line is JSON, and stands in its live event as it is, unless the line
has a form feed: this is trimmed before the line is read but not before it is output, and
JSON knows no such blank. An output of projections is JSON for every line. An output has no
line feed if its line has none.
-/

namespace LogQuery.Record

open LogQuery.Json LogQuery.Text

section Fields

variable {record : Value} {p : Projection} {cs : List Char}

theorem exists_of_projectionChars (hv : record.WellFormed) (h : projectionChars record p = some cs) :
    ∃ w : Value, w.WellFormed ∧ memberChars p.label w.chars = cs := by
  obtain ⟨w, hw, rfl⟩ := Option.map_eq_some_iff.mp h
  exact ⟨w, wellFormed_valuesAlong hv (List.mem_of_head? hw), rfl⟩

/-- What is projected from a well-formed record is a member of an object. -/
theorem grammar_projectionChars (hv : record.WellFormed) (h : projectionChars record p = some cs) :
    Grammar .member cs := by
  obtain ⟨w, hw, rfl⟩ := exists_of_projectionChars hv h
  exact grammar_memberChars p.label (grammar_chars hw).element_of_value

theorem printable_projectionChars (hv : record.WellFormed)
    (h : projectionChars record p = some cs) : Printable cs := by
  obtain ⟨w, hw, rfl⟩ := exists_of_projectionChars hv h
  exact printable_memberChars p.label (printable_chars hw)

end Fields

section Terminators

variable {cs : List Char} {c : Char}

theorem mem_dropLastIf {d : Char} (hc : c ∈ cs) (hne : c ≠ d) : c ∈ dropLastIf d cs := by
  unfold dropLastIf
  split
  next hlast =>
    obtain ⟨before, rfl⟩ := List.getLast?_eq_some_iff.mp (eq_of_beq hlast)
    rw [List.dropLast_concat]
    exact (List.mem_append.mp hc).resolve_right fun h => hne (List.mem_singleton.mp h)
  next => exact hc

theorem mem_stripTerminator (hc : c ∈ cs) (hfeed : c ≠ '\n') (hreturn : c ≠ '\r') :
    c ∈ stripTerminator cs :=
  mem_dropLastIf (mem_dropLastIf hc hfeed) hreturn

theorem grammar_dropLastIf {d : Char} (hd : isSpace d = true) (h : Grammar .element cs) :
    Grammar .element (dropLastIf d cs) := by
  unfold dropLastIf
  split
  next hlast =>
    obtain ⟨before, rfl⟩ := List.getLast?_eq_some_iff.mp (eq_of_beq hlast)
    rw [List.dropLast_concat]
    exact h.element_of_concat hd
  next => exact h

theorem grammar_stripTerminator (h : Grammar .element cs) : Grammar .element (stripTerminator cs) :=
  grammar_dropLastIf rfl (grammar_dropLastIf rfl h)

end Terminators

section Lines

/-- The blank that is trimmed from lines and is none of JSON. -/
def formFeed : UInt8 := 12

theorem exists_trimBy {α : Type} (p : α → Bool) (xs : List α) :
    ∃ before after, (∀ x ∈ before, p x = true) ∧ (∀ x ∈ after, p x = true) ∧
      xs = before ++ (trimBy p xs ++ after) := by
  refine ⟨xs.takeWhile p, ((xs.dropWhile p).reverse.takeWhile p).reverse,
    fun x hx => List.mem_takeWhile_imp hx,
    fun x hx => List.mem_takeWhile_imp (List.mem_reverse.mp hx), ?_⟩
  rw [trimBy, ← List.reverse_append, List.takeWhile_append_dropWhile, List.reverse_reverse,
    List.takeWhile_append_dropWhile]

variable {line bs : Bytes} {record : Value}

theorem exists_text_of_ofLine? (h : ofLine? line = some record) :
    ∃ text, decode? (trimBy isBlankByte line) = some text ∧ parse? text = some record := by
  rw [ofLine?] at h
  split at h
  · cases h
  · exact Option.bind_eq_some_iff.mp h

/-- Blank bytes are the bytes of a text. -/
theorem exists_text_of_blanks (hb : ∀ b ∈ bs, isBlankByte b = true) :
    ∃ cs, encodeChars cs = bs := by
  refine ⟨_, encodeChars_of_decode? (decode?_ascii fun b hmem => ?_)⟩
  have hblank := hb b hmem
  simp only [isBlankByte, Bool.or_eq_true, beq_iff_eq] at hblank
  rcases hblank with (((rfl | rfl) | rfl) | rfl) | rfl <;> decide

/-- A line that has a record is the bytes of a text, blanks and all. -/
theorem exists_text_of_line (h : ofLine? line = some record) : ∃ cs, encodeChars cs = line := by
  obtain ⟨text, htext, -⟩ := exists_text_of_ofLine? h
  obtain ⟨before, after, hbefore, hafter, hline⟩ := exists_trimBy isBlankByte line
  obtain ⟨b, hb⟩ := exists_text_of_blanks hbefore
  obtain ⟨a, ha⟩ := exists_text_of_blanks hafter
  refine ⟨b ++ (text ++ a), ?_⟩
  rw [encodeChars_append, encodeChars_append, hb, ha, encodeChars_of_decode? htext, ← hline]

/-- A blank byte is a blank of JSON unless it is a form feed. -/
theorem space_of_blankByte {b : UInt8} (hb : isBlankByte b = true) (hne : b ≠ formFeed) :
    b.toNat < 128 ∧ isSpace (Char.ofNat b.toNat) = true := by
  simp only [isBlankByte, Bool.or_eq_true, beq_iff_eq] at hb
  rcases hb with (((rfl | rfl) | rfl) | rfl) | rfl
  · exact ⟨by decide, rfl⟩
  · exact ⟨by decide, rfl⟩
  · exact ⟨by decide, rfl⟩
  · exact absurd rfl hne
  · exact ⟨by decide, rfl⟩

/-- Blank bytes without a form feed are read as blanks, and then what follows them. -/
theorem decodeLossy_blanks (hb : ∀ b ∈ bs, isBlankByte b = true) (hff : formFeed ∉ bs) :
    ∃ blanks, Blank blanks ∧
      ∀ rest, decodeLossyFrom none (bs ++ rest) = blanks ++ decodeLossyFrom none rest := by
  have hspace (b : UInt8) (hmem : b ∈ bs) := space_of_blankByte (hb b hmem)
    (ne_of_mem_of_not_mem hmem hff)
  refine ⟨_, ?_, decodeLossyFrom_append (decode?_ascii fun b hmem => (hspace b hmem).1)⟩
  intro c hc
  obtain ⟨b, hmem, rfl⟩ := List.mem_map.mp hc
  exact (hspace b hmem).2

/-- A line without a form feed that has a record is JSON, blanks and all. -/
theorem grammar_decodeLossy (h : ofLine? line = some record) (hff : formFeed ∉ line) :
    Grammar .element (decodeLossy line) := by
  obtain ⟨text, htext, hparse⟩ := exists_text_of_ofLine? h
  obtain ⟨before, after, hbefore, hafter, hline⟩ := exists_trimBy isBlankByte line
  rw [hline] at hff
  simp only [List.mem_append, not_or] at hff
  obtain ⟨b, hb, hread⟩ := decodeLossy_blanks hbefore hff.1
  obtain ⟨a, ha, hrest⟩ := decodeLossy_blanks hafter hff.2.2
  have hend : decodeLossyFrom none after = a := by simpa [decodeLossyFrom] using hrest []
  rw [decodeLossy, hline, hread, decodeLossyFrom_append htext, hend]
  exact ((grammar_of_parse? hparse).element_blank ha).blank_element hb

/-- Blanks may be put around the output of a line, but a form feed remains in it. -/
theorem grammar_output_line_iff (h : ofLine? line = some record) :
    Grammar .element (stripTerminator (decodeLossy line)) ↔ formFeed ∉ line := by
  constructor
  · intro hgrammar hff
    have hmem := mem_stripTerminator (mem_decodeLossy (by decide) hff) (by decide) (by decide)
    exact absurd (hgrammar.noControl _ hmem) (by decide)
  · exact fun hff => grammar_stripTerminator (grammar_decodeLossy h hff)

end Lines

section Outputs

variable {plan : Plan} {line : Bytes} {record : Value}

/-- The lines of which the output is JSON. -/
def Verbatim (plan : Plan) (line : Bytes) : Prop := plan.projections ≠ [] ∨ formFeed ∉ line

instance (plan : Plan) (line : Bytes) : Decidable (Verbatim plan line) :=
  inferInstanceAs (Decidable (_ ∨ _))

theorem ofLine?_of_matchLine? (h : plan.matchLine? line = some record) :
    ofLine? line = some record :=
  (Option.filter_eq_some_iff.mp h).1

theorem wellFormed_of_matchLine? (h : plan.matchLine? line = some record) : record.WellFormed := by
  obtain ⟨text, -, hparse⟩ := exists_text_of_ofLine? (ofLine?_of_matchLine? h)
  exact (wellFormed_of_parse? hparse).1

theorem outputChars_line (hp : plan.projections = []) :
    outputChars plan line record = stripTerminator (decodeLossy line) := by
  simp [outputChars, hp]

/-- Without projections the bytes of a line are put out, but for a terminator at their end. -/
theorem encodeChars_outputChars (hp : plan.projections = []) (h : ofLine? line = some record) :
    encodeChars (outputChars plan line record) = stripTerminatorBytes line := by
  obtain ⟨cs, rfl⟩ := exists_text_of_line h
  have hread : decodeLossy (encodeChars cs) = cs := by
    have hvalid : decodeFrom? none (encodeChars cs) = some cs := decode?_encodeChars cs
    simpa [decodeLossy, decodeLossyFrom] using decodeLossyFrom_append hvalid []
  rw [outputChars_line hp, hread, encodeChars_stripTerminator]

theorem grammar_outputChars_projections (hp : plan.projections ≠ []) (hv : record.WellFormed) :
    Grammar .element (outputChars plan line record) := by
  have hmembers : ∀ cs ∈ plan.projections.filterMap (projectionChars record),
      Grammar .member cs := by
    intro cs hcs
    obtain ⟨p, -, hp⟩ := List.mem_filterMap.mp hcs
    exact grammar_projectionChars hv hp
  rw [outputChars, if_neg (by simpa using hp)]
  exact (grammar_object hmembers).element_of_value

/-- The output of a matched line is JSON exactly if it is verbatim. -/
theorem grammar_outputChars_iff (h : plan.matchLine? line = some record) :
    Grammar .element (outputChars plan line record) ↔ Verbatim plan line := by
  have hline := ofLine?_of_matchLine? h
  by_cases hp : plan.projections = []
  · rw [outputChars_line hp, grammar_output_line_iff hline, Verbatim]
    exact (or_iff_right (not_not_intro hp)).symm
  · have hv : record.WellFormed := wellFormed_of_matchLine? h
    exact iff_of_true (grammar_outputChars_projections hp hv) (.inl hp)

/-- An output that is no JSON has a form feed in it. -/
theorem formFeed_mem_outputChars (record : Value) (hnot : ¬ Verbatim plan line) :
    Char.ofNat 12 ∈ outputChars plan line record := by
  obtain ⟨hp, hff⟩ := not_or.mp hnot
  rw [outputChars_line (not_not.mp hp)]
  exact mem_stripTerminator (mem_decodeLossy (by decide) (not_not.mp hff)) (by decide) (by decide)

end Outputs

section Feeds

variable {plan : Plan} {line : Bytes} {record : Value}

theorem not_mem_of_printable {cs : List Char} {c : Char} (h : Printable cs) (hc : c.toNat < 32) :
    c ∉ cs := fun hmem => absurd (h c hmem) (Nat.not_le.mpr hc)

theorem lineFeed_not_mem_decodeLossy (h : lineFeed ∉ line) : '\n' ∉ decodeLossy line := by
  intro hmem
  obtain ⟨b, hb, hcode⟩ := exists_byte_of_mem_decodeLossy hmem (by decide) (by decide)
  obtain rfl : b = lineFeed := UInt8.toNat_inj.mp hcode
  exact h hb

/-- The output of a line without a line feed has none, whatever the line and the plan hold. -/
theorem lineFeed_not_mem_outputChars (h : plan.matchLine? line = some record)
    (hline : lineFeed ∉ line) : '\n' ∉ outputChars plan line record := by
  by_cases hp : plan.projections = []
  · rw [outputChars_line hp]
    exact fun hmem => lineFeed_not_mem_decodeLossy hline
      (mem_of_mem_dropLastIf (mem_of_mem_dropLastIf hmem))
  · have hmembers : Printable (commaChars (plan.projections.filterMap (projectionChars record))) := by
      refine printable_commaChars fun cs hcs => ?_
      obtain ⟨p, -, hp⟩ := List.mem_filterMap.mp hcs
      exact printable_projectionChars (wellFormed_of_matchLine? h) hp
    rw [outputChars, if_neg (by simpa using hp)]
    refine not_mem_of_printable ?_ (by decide)
    simp [printable_cons, printable_append, hmembers, printable_nil]

end Feeds

section Events

variable {plan : Plan} {line : Bytes} {record : Value}

/-- The form in which an output stands in its event. -/
def dataChars (plan : Plan) (line : Bytes) (output : List Char) : List Char :=
  if Verbatim plan line then stripTerminator output else quoteChars (stripTerminator output)

theorem isText_output_iff (h : plan.matchLine? line = some record) :
    isText (stripTerminator (outputChars plan line record)) = true ↔ Verbatim plan line := by
  rw [isText_iff]
  constructor
  · intro hgrammar
    by_contra hnot
    have hmem := mem_stripTerminator (formFeed_mem_outputChars record hnot)
      (by decide) (by decide)
    exact absurd (hgrammar.noControl _ hmem) (by decide)
  · exact fun hv => grammar_stripTerminator ((grammar_outputChars_iff h).mpr hv)

/-- The live event of a matched line holds its output as it is, or as a string. -/
theorem eventChars_outputChars (h : plan.matchLine? line = some record) :
    eventChars (outputChars plan line record) = "\x7b\"type\":\"log\",\"data\":".toList ++
      dataChars plan line (outputChars plan line record) ++ ['\x7d'] := by
  have htext := isText_output_iff h
  have hdata : (if isText (stripTerminator (outputChars plan line record)) then
      stripTerminator (outputChars plan line record)
      else quoteChars (stripTerminator (outputChars plan line record))) =
      dataChars plan line (outputChars plan line record) := by
    unfold dataChars
    exact if_congr htext rfl rfl
  exact congrArg (_ ++ · ++ ['\x7d']) hdata

/-- A text as it stands in its event. -/
def embedded (cs : List Char) : List Char := if isText cs then cs else quoteChars cs

theorem grammar_embedded (cs : List Char) : Grammar .element (embedded cs) := by
  unfold embedded
  split
  next htext => exact isText_iff.mp htext
  next => exact (grammar_quoteChars cs).element_of_value

/-- The members of an event. -/
def eventMembers (data : List Char) : List (List Char) :=
  [memberChars "type" (quoteChars "log".toList), memberChars "data" data]

theorem eventChars_eq (cs : List Char) : eventChars cs =
    '\x7b' :: (commaChars (eventMembers (embedded (stripTerminator cs))) ++ ['\x7d']) := by
  have hopening : "\x7b\"type\":\"log\",\"data\":".toList =
      '\x7b' :: (memberChars "type" (quoteChars "log".toList) ++ ',' :: memberChars "data" []) :=
    rfl
  have hevent : eventChars cs = "\x7b\"type\":\"log\",\"data\":".toList ++
      embedded (stripTerminator cs) ++ ['\x7d'] := rfl
  rw [hevent, hopening]
  simp [eventMembers, commaChars, memberChars]

/-- Every event is JSON. -/
theorem grammar_eventChars (cs : List Char) : Grammar .value (eventChars cs) := by
  rw [eventChars_eq]
  refine grammar_object (List.forall_mem_cons.mpr ⟨?_, List.forall_mem_singleton.mpr ?_⟩)
  · exact grammar_memberChars "type" (grammar_quoteChars _).element_of_value
  · exact grammar_memberChars "data" (grammar_embedded _)

end Events

end LogQuery.Record
