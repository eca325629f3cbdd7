import LogQuery.Hub.Reply
import LogQuery.Proofs.Live.Accounting
import LogQuery.Proofs.Record.Output

/-!
# Bodies of searches

The chunks of a search on `/query` make one object: its results are the records with commas
between them, and a failure is a member after them. So the end of the body tells whether the
search failed. On `/query-for-lines` nothing tells it: the body is that of a search which sent
the same records and did not fail.
-/

namespace LogQuery.Hub

open LogQuery.Json LogQuery.Engine LogQuery.Record LogQuery.Text LogQuery.Live

/-- What a search sends: its records, and a failure at its end if there is one. -/
def sent (records : List String) (failure? : Option Failure) : List Item :=
  records.map .record ++ failure?.toList.map .failure

section Envelope

variable (records : List String) (failure? : Option Failure)

/-- What closes an envelope. -/
def envelopeClosing : Option Failure → String
  | none => "]\x7d"
  | some f => envelopeFailure f

theorem envelopeRows_false : envelopeRows false (sent records failure?) =
    records.map ("," ++ ·) ++ [envelopeClosing failure?] := by
  induction records with
  | nil => cases failure? <;> rfl
  | cons r records ih => exact congrArg (("," ++ r) :: ·) ih

theorem envelopeRows_true_cons (r : String) : envelopeRows true (sent (r :: records) failure?) =
    r :: envelopeRows false (sent records failure?) := rfl

theorem mem_commaChars {cs : List Char} {css : List (List Char)} {c : Char} (hcs : cs ∈ css)
    (hc : c ∈ cs) : c ∈ commaChars css := by
  cases css with
  | nil => cases hcs
  | cons ds css =>
    rw [commaChars_cons]
    rcases List.mem_cons.mp hcs with rfl | hcs
    · exact List.mem_append_left _ hc
    · exact List.mem_append_right ds (List.mem_flatMap.mpr ⟨cs, hcs, List.mem_cons_of_mem _ hc⟩)

/-- The rows of an envelope are the records with commas between them. -/
theorem toList_join_rows : (String.join (envelopeRows true (sent records failure?))).toList =
    commaChars (records.map String.toList) ++ (envelopeClosing failure?).toList := by
  cases records with
  | nil => cases failure? <;> simp [sent, envelopeRows, commaChars, envelopeClosing]
  | cons r records =>
    rw [envelopeRows_true_cons, envelopeRows_false, List.map_cons, commaChars_cons]
    simp [List.flatMap_map]

/-- The members of the envelope of a search. -/
def envelopeMembers (records : List (List Char)) (failure? : Option Failure) : List (List Char) :=
  memberChars "type" (quoteChars "search".toList) ::
    memberChars "results" ('[' :: (commaChars records ++ [']'])) ::
      failure?.toList.map fun f => memberChars "error" (quoteChars f.message.toList)

/-- The body of a search is an object. -/
theorem toList_body : (Reply.ofAnswer (.search (sent records failure?))).body.toList =
    '\x7b' :: (commaChars (envelopeMembers (records.map String.toList) failure?) ++ ['\x7d']) := by
  have hbody : (Reply.ofAnswer (.search (sent records failure?))).body.toList =
      envelopeOpening.toList ++ (String.join (envelopeRows true (sent records failure?))).toList := by
    simp [Reply.ofAnswer, envelope]
  have hopening : envelopeOpening.toList = '\x7b' ::
      (memberChars "type" (quoteChars "search".toList) ++ ',' :: (memberChars "results" ['['])) := by
    rw [envelopeOpening, String.toList_append, String.toList_append]
    rfl
  have hfailure (f : Failure) : (envelopeFailure f).toList =
      ']' :: ',' :: (memberChars "error" (quoteChars f.message.toList) ++ ['\x7d']) := by
    have herror : "],\"error\":".toList = ']' :: ',' :: memberChars "error" [] := rfl
    rw [envelopeFailure, String.toList_append, String.toList_append, herror, Value.text,
      String.toList_ofList, Value.chars]
    simp [memberChars]
  rw [hbody, hopening, toList_join_rows]
  cases failure? with
  | none => simp [envelopeMembers, envelopeClosing, commaChars, memberChars]
  | some f => simp [envelopeMembers, envelopeClosing, commaChars, memberChars, hfailure]

end Envelope

section Records

/-- The body of a search is JSON if all its records are. -/
theorem grammar_body {records : List String} (h : ∀ r ∈ records, Grammar .element r.toList)
    (failure? : Option Failure) :
    Grammar .element (Reply.ofAnswer (.search (sent records failure?))).body.toList := by
  have hrecords : ∀ cs ∈ records.map String.toList, Grammar .element cs := by
    intro cs hcs
    obtain ⟨r, hr, rfl⟩ := List.mem_map.mp hcs
    exact h r hr
  rw [toList_body]
  refine (grammar_object fun cs hcs => ?_).element_of_value
  rcases List.mem_cons.mp hcs with rfl | hcs
  · exact grammar_memberChars "type" (grammar_quoteChars _).element_of_value
  rcases List.mem_cons.mp hcs with rfl | hcs
  · exact grammar_memberChars "results" (grammar_array hrecords).element_of_value
  · obtain ⟨f, -, rfl⟩ := List.mem_map.mp hcs
    exact grammar_memberChars "error" (grammar_quoteChars _).element_of_value

theorem mem_body {records : List String} {r : String} {c : Char} (hr : r ∈ records)
    (hc : c ∈ r.toList) (failure? : Option Failure) :
    c ∈ (Reply.ofAnswer (.search (sent records failure?))).body.toList := by
  have hrows : c ∈ commaChars (records.map String.toList) :=
    mem_commaChars (List.mem_map_of_mem hr) hc
  rw [toList_body]
  simp [envelopeMembers, commaChars_cons, memberChars, hrows]

/-- The output of a matched line is JSON, and stands in its event as it is, unless it is the
line itself and has a form feed; then it stands there as a string. The body of a search is
JSON exactly if all its records are. -/
theorem outputs_embedded (plan : Plan) (matched : List (Bytes × Value))
    (failure? : Option Failure) (h : ∀ m ∈ matched, plan.matchLine? m.1 = some m.2) :
    (∀ m ∈ matched,
      (Grammar .element (outputChars plan m.1 m.2) ↔ Verbatim plan m.1) ∧
      eventChars (outputChars plan m.1 m.2) = "\x7b\"type\":\"log\",\"data\":".toList ++
        dataChars plan m.1 (outputChars plan m.1 m.2) ++ ['\x7d'] ∧
      Grammar .value (eventChars (outputChars plan m.1 m.2))) ∧
    (Grammar .element (Reply.ofAnswer (.search
        (sent (matched.map fun m => output plan m.1 m.2) failure?))).body.toList ↔
      ∀ m ∈ matched, Verbatim plan m.1) := by
  refine ⟨fun m hm => ⟨grammar_outputChars_iff (h m hm), eventChars_outputChars (h m hm),
    grammar_eventChars _⟩, fun hbody m hm => ?_, fun hall => grammar_body (fun r hr => ?_) failure?⟩
  · by_contra hnot
    have hmem : Char.ofNat 12 ∈ (output plan m.1 m.2).toList := by
      rw [output, String.toList_ofList]
      exact formFeed_mem_outputChars m.2 hnot
    have hrecord : output plan m.1 m.2 ∈ matched.map fun m => output plan m.1 m.2 :=
      List.mem_map_of_mem hm
    have hcontrol := hbody.noControl _ (mem_body hrecord hmem failure?)
    exact absurd hcontrol (by decide)
  · obtain ⟨m, hm, rfl⟩ := List.mem_map.mp hr
    rw [output, String.toList_ofList]
    exact (grammar_outputChars_iff (h m hm)).mpr (hall m hm)

/-- The line of a record without fields. -/
def emptyLine : Bytes := [123, 125]

theorem outputs_embedded_emptyLine :
    Broadcaster.everyRecord.matchLine? emptyLine = some (.object []) ∧
    Grammar .element (outputChars Broadcaster.everyRecord emptyLine (.object [])) ∧
    Grammar .element (Reply.ofAnswer (.search
      (sent [output Broadcaster.everyRecord emptyLine (.object [])] none))).body.toList := by
  have hmatch : Broadcaster.everyRecord.matchLine? emptyLine = some (.object []) := rfl
  have hverbatim : Verbatim Broadcaster.everyRecord emptyLine := .inr (by decide)
  obtain ⟨hall, hbody⟩ := outputs_embedded Broadcaster.everyRecord
    [(emptyLine, .object [])] none (List.forall_mem_singleton.mpr hmatch)
  exact ⟨hmatch, (hall _ List.mem_cons_self).1.mpr hverbatim,
    hbody.mpr (List.forall_mem_singleton.mpr hverbatim)⟩

/-- A form feed before a record makes an output that is no JSON, and a string of its event. -/
theorem formFeed_not_embedded :
    Broadcaster.everyRecord.matchLine? (formFeed :: emptyLine) = some (.object []) ∧
    isText (outputChars Broadcaster.everyRecord (formFeed :: emptyLine) (.object [])) = false ∧
    eventChars (outputChars Broadcaster.everyRecord (formFeed :: emptyLine) (.object [])) =
      "\x7b\"type\":\"log\",\"data\":\"\\f\x7b\x7d\"\x7d".toList :=
  ⟨rfl, rfl, rfl⟩

end Records

section Failures

theorem exists_members_concat (records : List (List Char)) (failure? : Option Failure) :
    ∃ before, commaChars (envelopeMembers records failure?) =
      before ++ [if failure?.isSome then '"' else ']'] := by
  cases failure? with
  | none =>
    exact ⟨memberChars "type" (quoteChars "search".toList) ++
      ',' :: memberChars "results" ('[' :: commaChars records),
      by simp [envelopeMembers, commaChars, memberChars]⟩
  | some f =>
    exact ⟨memberChars "type" (quoteChars "search".toList) ++
      ',' :: (memberChars "results" ('[' :: (commaChars records ++ [']'])) ++
        ',' :: memberChars "error" ('"' :: f.message.toList.flatMap escapeChar)),
      by simp [envelopeMembers, commaChars, memberChars, quoteChars.eq_1 f.message.toList]⟩

/-- Whether a search failed is seen before the last brace of its body. -/
theorem ofAnswer_failed_ne (records others : List String) (f : Failure) :
    Reply.ofAnswer (.search (sent records (some f))) ≠ Reply.ofAnswer (.search (sent others none)) := by
  intro h
  have hbody := congrArg (·.body.toList) h
  simp only [toList_body, List.cons_inj_right, List.append_cancel_right_eq] at hbody
  obtain ⟨before, hfailed⟩ := exists_members_concat (records.map String.toList) (some f)
  obtain ⟨before', hended⟩ := exists_members_concat (others.map String.toList) none
  rw [hfailed, hended] at hbody
  exact absurd (List.append_inj' hbody rfl).2 (by simp)

theorem linesOfAnswer_sent (records : List String) (failure? : Option Failure) :
    Reply.linesOfAnswer (.search (sent records failure?)) =
      ⟨200, some .jsonSequence, String.join (records.map (· ++ "\n"))⟩ := by
  have hchunks : lineSequence (sent records failure?) = records.map (· ++ "\n") := by
    induction records with
    | nil => cases failure? <;> rfl
    | cons r records ih => exact congrArg ((r ++ "\n") :: ·) ih
  rw [Reply.linesOfAnswer, hchunks]

/-- A text up to a character that it does not have. -/
theorem append_cons_inj {c : Char} {as bs xs ys : List Char} (ha : c ∉ as) (hb : c ∉ bs)
    (h : as ++ c :: xs = bs ++ c :: ys) : as = bs ∧ xs = ys := by
  induction as generalizing bs with
  | nil =>
    cases bs with
    | nil => exact ⟨rfl, List.tail_eq_of_cons_eq h⟩
    | cons b bs => exact absurd (List.head_eq_of_cons_eq h) (List.ne_of_not_mem_cons hb)
  | cons a as ih =>
    cases bs with
    | nil => exact absurd (List.head_eq_of_cons_eq h).symm (List.ne_of_not_mem_cons ha)
    | cons b bs =>
      obtain ⟨hhead, hmore⟩ := List.cons_eq_cons.mp h
      obtain ⟨htail, hrest⟩ :=
        ih (List.not_mem_of_not_mem_cons ha) (List.not_mem_of_not_mem_cons hb) hmore
      exact ⟨List.cons_eq_cons.mpr ⟨hhead, htail⟩, hrest⟩

/-- Records without line feeds can be told from their lines. -/
theorem join_lines_inj {records others : List String} (hr : ∀ r ∈ records, '\n' ∉ r.toList)
    (ho : ∀ r ∈ others, '\n' ∉ r.toList)
    (h : String.join (records.map (· ++ "\n")) = String.join (others.map (· ++ "\n"))) :
    records = others := by
  induction records generalizing others with
  | nil =>
    cases others with
    | nil => rfl
    | cons o others => exact absurd (congrArg String.toList h) (by simp)
  | cons r records ih =>
    cases others with
    | nil => exact absurd (congrArg String.toList h) (by simp)
    | cons o others =>
      obtain ⟨hr, hrecords⟩ := List.forall_mem_cons.mp hr
      obtain ⟨ho, hothers⟩ := List.forall_mem_cons.mp ho
      have hlines := congrArg String.toList h
      simp only [List.map_cons, String.join_cons, String.toList_append, List.append_assoc] at hlines
      obtain ⟨hhead, htail⟩ := append_cons_inj hr ho hlines
      rw [String.toList_inj.mp hhead, ih hrecords hothers (String.toList_inj.mp htail)]

/-- On `/query` a search that failed is answered like none which did not. On
`/query-for-lines` it is answered like the search which sent the same records and did not
fail, and, of records without line feeds, like no other one. -/
theorem failed_search_answers (records others : List String) (f : Failure) :
    Reply.ofAnswer (.search (sent records (some f))) ≠ Reply.ofAnswer (.search (sent others none)) ∧
    Reply.linesOfAnswer (.search (sent records (some f))) =
      Reply.linesOfAnswer (.search (sent records none)) ∧
    ((∀ r ∈ records ++ others, '\n' ∉ r.toList) →
      Reply.linesOfAnswer (.search (sent records (some f))) =
        Reply.linesOfAnswer (.search (sent others none)) → records = others) := by
  simp only [linesOfAnswer_sent, Reply.mk.injEq, true_and]
  refine ⟨ofAnswer_failed_ne records others f, fun hfeeds hbody => ?_⟩
  obtain ⟨hr, ho⟩ := List.forall_mem_append.mp hfeeds
  exact join_lines_inj hr ho hbody

/-- A file whose path is too long to be opened. -/
def unopened : Failure := .read ⟨"logs/app/2020-01-01/2020-01-01T00-00-00.log"⟩ .nameTooLong

theorem failed_search_answers_unopened :
    Reply.ofAnswer (.search (sent [] (some unopened))) ≠
      Reply.ofAnswer (.search (sent ["\x7b\x7d"] none)) ∧
    Reply.linesOfAnswer (.search (sent [] (some unopened))) ≠
      Reply.linesOfAnswer (.search (sent ["\x7b\x7d"] none)) := by
  obtain ⟨hquery, -, hlines⟩ := failed_search_answers [] ["\x7b\x7d"] unopened
  exact ⟨hquery, fun h => absurd (hlines (by decide) h) (by decide)⟩

/-- A search that could not open its only file is answered as one that found nothing. -/
theorem unopened_answered_as_nothing_found :
    Reply.linesOfAnswer (.search (sent [] (some unopened))) =
      Reply.linesOfAnswer (.search (sent [] none)) :=
  rfl

end Failures

end LogQuery.Hub
