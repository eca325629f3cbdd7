import LogQuery.Proofs.Hub.Reply
import LogQuery.Proofs.Record.Event

/-!
# What an envelope encloses

The chunks of a search on `/query` are written while its stream is read, but together they
are one object for every stream of JSON records, wherever the first failure stands in it. The
object can be taken apart in one way: it gives back the records up to the failure, and its
message.
-/

namespace LogQuery.Hub

open LogQuery.Json LogQuery.Engine LogQuery.Record

section Streams

/-- The records of a stream up to its first failure. -/
def recordsBefore : List Item → List String
  | .record r :: items => r :: recordsBefore items
  | _ => []

/-- The first failure of a stream. -/
def firstFailure? : List Item → Option Failure
  | [] => none
  | .failure f :: _ => some f
  | .record _ :: items => firstFailure? items

/-- A stream goes on after a failure, and has ended if there is none. -/
theorem exists_after (items : List Item) :
    ∃ after, items = sent (recordsBefore items) (firstFailure? items) ++ after ∧
      (firstFailure? items = none → after = []) := by
  induction items with
  | nil => exact ⟨[], rfl, fun _ => rfl⟩
  | cons i items ih =>
    cases i with
    | failure f => exact ⟨items, rfl, nofun⟩
    | record r =>
      obtain ⟨after, hitems, hend⟩ := ih
      exact ⟨after, congrArg (.record r :: ·) hitems, hend⟩

theorem mem_of_recordsBefore {items : List Item} {r : String} (h : r ∈ recordsBefore items) :
    .record r ∈ items := by
  induction items with
  | nil => cases h
  | cons i items ih =>
    cases i with
    | failure f => cases h
    | record s =>
      rcases List.mem_cons.mp h with rfl | h
      · exact List.mem_cons_self
      · exact List.mem_cons_of_mem _ (ih h)

/-- Nothing is written of what a stream sends after a failure. -/
theorem envelopeRows_eq (first : Bool) (items : List Item) : envelopeRows first items =
    envelopeRows first (sent (recordsBefore items) (firstFailure? items)) := by
  induction items generalizing first with
  | nil => rfl
  | cons i items ih =>
    cases i with
    | failure f => rfl
    | record r =>
      cases first with
      | true => exact congrArg (r :: ·) (ih false)
      | false => exact congrArg (("," ++ r) :: ·) (ih false)

theorem envelope_eq (items : List Item) :
    envelope items = envelope (sent (recordsBefore items) (firstFailure? items)) :=
  congrArg (envelopeOpening :: ·) (envelopeRows_eq true items)

end Streams

section Bodies

/-- A body as the envelope of records, which are its results, and of the message that its
error is read as, if it has one. -/
inductive Encloses (body : List Char) (records : List (List Char)) : Option String → Prop
  | ended {results : List Char} (hresults : ArrayOf results records)
      (hbody : ObjectOf body
        [("type".toList, "\"search\"".toList), ("results".toList, results)]) :
      Encloses body records none
  | failed {results error : List Char} {message : String} (hresults : ArrayOf results records)
      (herror : parse? error = some (.string message))
      (hbody : ObjectOf body [("type".toList, "\"search\"".toList), ("results".toList, results),
        ("error".toList, error)]) :
      Encloses body records (some message)

variable {body : List Char} {records others : List (List Char)} {message? message'? : Option String}

theorem Encloses.grammar (h : Encloses body records message?) : Grammar .value body := by
  cases h with
  | ended _ hbody | failed _ _ hbody => exact hbody.grammar

/-- A body encloses no other records and no other message. -/
theorem Encloses.unique (h : Encloses body records message?) (h' : Encloses body others message'?) :
    records = others ∧ message? = message'? := by
  cases h with
  | ended hresults hbody =>
    cases h' with
    | ended hresults' hbody' =>
      obtain ⟨⟩ := hbody.unique hbody'
      exact ⟨hresults.unique hresults', rfl⟩
    | failed _ _ hbody' => cases hbody.unique hbody'
  | failed hresults herror hbody =>
    cases h' with
    | ended _ hbody' => cases hbody.unique hbody'
    | failed hresults' herror' hbody' =>
      obtain ⟨⟩ := hbody.unique hbody'
      obtain ⟨⟩ := herror.symm.trans herror'
      exact ⟨hresults.unique hresults', rfl⟩

/-- The envelope of JSON records encloses them, and the message of a failure. -/
theorem encloses_sent {records : List String} (h : ∀ r ∈ records, Grammar .element r.toList)
    (failure? : Option Failure) :
    Encloses (String.join (envelope (sent records failure?))).toList
      (records.map String.toList) (failure?.map Failure.message) := by
  have hresults : ArrayOf ('[' :: (commaChars (records.map String.toList) ++ [']']))
      (records.map String.toList) := arrayOf_commaChars (List.forall_mem_map.mpr h)
  have htype := memberOf_quoteChars "type" "search".toList
  have hmember : MemberOf (memberChars "results" _) _ :=
    memberOf_memberChars "results" hresults.grammar.element_of_value
  have hbody : (String.join (envelope (sent records failure?))).toList = _ :=
    toList_body records failure?
  rw [hbody]
  cases failure? with
  | none => exact .ended hresults (.members (List.cons_ne_nil _ _) (.cons htype (.cons hmember .nil)))
  | some f =>
    have herror := memberOf_quoteChars "error" f.message.toList
    have hread : parse? (quoteChars f.message.toList) = some (.string f.message) := by
      rw [parse?_quoteChars, String.ofList_toList]
    exact .failed hresults hread
      (.members (List.cons_ne_nil _ _) (.cons htype (.cons hmember (.cons herror .nil))))

/-- The text of an envelope, of which a failure is told at the end. -/
def envelopeText (records : List String) (message? : Option String) : String :=
  "\x7b\"type\":\"search\",\"results\":[" ++ ",".intercalate records ++
    message?.elim "]\x7d" fun message => "],\"error\":" ++ quote message ++ "\x7d"

theorem join_envelope_sent (records : List String) (failure? : Option Failure) :
    String.join (envelope (sent records failure?)) =
      envelopeText records (failure?.map Failure.message) := by
  have hopening : envelopeOpening = "\x7b\"type\":\"search\",\"results\":[" := by decide +kernel
  have hclosing : envelopeClosing failure? = (failure?.map Failure.message).elim "]\x7d"
      fun message => "],\"error\":" ++ quote message ++ "\x7d" := by
    cases failure? <;> rfl
  have hrows : String.join (envelopeRows true (sent records failure?)) =
      ",".intercalate records ++ envelopeClosing failure? := by
    apply String.toList_inj.mp
    rw [toList_join_rows, commaChars_eq_intercalate, String.toList_append,
      String.toList_intercalate]
    rfl
  calc String.join (envelope (sent records failure?))
      = envelopeOpening ++ String.join (envelopeRows true (sent records failure?)) :=
        String.join_cons
    _ = envelopeOpening ++ (",".intercalate records ++ envelopeClosing failure?) := by rw [hrows]
    _ = envelopeOpening ++ ",".intercalate records ++ envelopeClosing failure? :=
        (String.append_assoc ..).symm
    _ = envelopeText records (failure?.map Failure.message) :=
        congrArg₂ (fun a b => a ++ ",".intercalate records ++ b) hopening hclosing

/-- **What an envelope encloses.** A stream of JSON records is written up to its first failure.
The text is JSON, and encloses just the records before the failure and its message. -/
theorem envelope_encloses {items : List Item}
    (h : ∀ r, .record r ∈ items → Grammar .element r.toList) :
    (∃ after, items = sent (recordsBefore items) (firstFailure? items) ++ after ∧
      (firstFailure? items = none → after = [])) ∧
    envelope items = envelope (sent (recordsBefore items) (firstFailure? items)) ∧
    String.join (envelope items) =
      envelopeText (recordsBefore items) ((firstFailure? items).map Failure.message) ∧
    Grammar .value (String.join (envelope items)).toList ∧
    ∀ records message?, Encloses (String.join (envelope items)).toList records message? ↔
      records = (recordsBefore items).map String.toList ∧
        message? = (firstFailure? items).map Failure.message := by
  have hrecords : ∀ r ∈ recordsBefore items, Grammar .element r.toList :=
    fun r hr => h r (mem_of_recordsBefore hr)
  have hencloses := encloses_sent hrecords (firstFailure? items)
  rw [← envelope_eq] at hencloses
  refine ⟨exists_after items, envelope_eq items, ?_, hencloses.grammar, fun records message? => ?_⟩
  · rw [envelope_eq, join_envelope_sent]
  · constructor
    · exact fun h => h.unique hencloses
    · rintro ⟨rfl, rfl⟩
      exact hencloses

/-- A record, a failure, and a record that is not written any more. -/
def cancelledItems : List Item := [.record " \x7b\x7d", .failure .cancelled, .record "1"]

theorem envelope_encloses_cancelled :
    (∀ r, .record r ∈ cancelledItems → Grammar .element r.toList) ∧
    String.join (envelope cancelledItems) =
      "\x7b\"type\":\"search\",\"results\":[ \x7b\x7d],\"error\":\"query cancelled\"\x7d" ∧
    Encloses (String.join (envelope cancelledItems)).toList [" \x7b\x7d".toList]
      (some "query cancelled") := by
  have h : ∀ r, .record r ∈ cancelledItems → Grammar .element r.toList := by
    intro r hr
    obtain rfl | rfl : r = " \x7b\x7d" ∨ r = "1" := by simpa [cancelledItems] using hr
    · exact isText_iff.mp (by decide)
    · exact isText_iff.mp (by decide)
  obtain ⟨-, -, htext, -, hencloses⟩ := envelope_encloses h
  exact ⟨h, htext.trans (by decide +kernel), (hencloses _ _).mpr ⟨rfl, rfl⟩⟩

end Bodies

end LogQuery.Hub
