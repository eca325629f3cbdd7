import LogQuery.Proofs.Json.Unambiguity
import LogQuery.Proofs.Record.Output

/-!
# Events hold one text each

Whatever text is wrapped into an event, the event is an object of two members and can be
taken for no other one. A text that is JSON neither ends its member early nor begins a
further one: it is an element, and only one element stands where it stands.
-/

namespace LogQuery.Record

open LogQuery.Json LogQuery.Text

section Terminators

/-- What a text may end in: no terminator, or one of three. -/
def terminators : List (List Char) := [[], ['\r'], ['\n'], ['\r', '\n']]

/-- A text without the longest terminator it ends in. -/
def Unterminated (cs r : List Char) : Prop :=
  ∃ t ∈ terminators, cs = r ++ t ∧ ∀ u ∈ terminators, u <:+ cs → u.length ≤ t.length

variable {before u : List Char} {c d : Char}

theorem dropLastIf_concat (d c : Char) (before : List Char) :
    dropLastIf d (before ++ [c]) = if c = d then before else before ++ [c] := by
  simp [dropLastIf]

theorem suffix_concat_iff : u ++ [d] <:+ before ++ [c] ↔ d = c ∧ u <:+ before := by
  constructor
  · rintro ⟨start, h⟩
    rw [← List.append_assoc] at h
    obtain ⟨hbefore, hc⟩ := List.append_inj' h rfl
    exact ⟨List.head_eq_of_cons_eq hc, start, hbefore⟩
  · rintro ⟨rfl, start, rfl⟩
    exact ⟨start, (List.append_assoc ..).symm⟩

/-- Which terminators stand at the end of a text. -/
theorem forall_terminators_iff {P : List Char → Prop} :
    (∀ u ∈ terminators, u <:+ before ++ [c] → P u) ↔
      P [] ∧ (c = '\r' → P ['\r']) ∧ (c = '\n' → P ['\n']) ∧
        (c = '\n' → ['\r'] <:+ before → P ['\r', '\n']) := by
  have hreturn : ['\r'] <:+ before ++ [c] ↔ '\r' = c ∧ [] <:+ before :=
    suffix_concat_iff (u := [])
  have hfeed : ['\n'] <:+ before ++ [c] ↔ '\n' = c ∧ [] <:+ before :=
    suffix_concat_iff (u := [])
  have hboth : ['\r', '\n'] <:+ before ++ [c] ↔ '\n' = c ∧ ['\r'] <:+ before :=
    suffix_concat_iff (u := ['\r'])
  simp [terminators, hreturn, hfeed, hboth, eq_comm]

theorem unterminated_stripTerminator (cs : List Char) : Unterminated cs (stripTerminator cs) := by
  rcases List.eq_nil_or_concat' cs with rfl | ⟨before, c, rfl⟩
  · exact ⟨[], by decide, rfl, by decide⟩
  unfold Unterminated stripTerminator
  simp only [forall_terminators_iff, dropLastIf_concat]
  by_cases hfeed : c = '\n'
  · subst hfeed
    rw [if_pos rfl]
    by_cases hreturn : ['\r'] <:+ before
    · obtain ⟨start, rfl⟩ := hreturn
      rw [dropLastIf_concat, if_pos rfl]
      exact ⟨['\r', '\n'], by decide, by simp, by decide, by decide, by decide, by simp⟩
    · have hkept : dropLastIf '\r' before = before := by
        refine if_neg fun h => hreturn ?_
        obtain ⟨start, rfl⟩ := List.getLast?_eq_some_iff.mp (eq_of_beq h)
        exact List.suffix_append start ['\r']
      rw [hkept]
      exact ⟨['\n'], by decide, rfl, by decide, by decide, by decide, fun _ h => absurd h hreturn⟩
  · rw [if_neg hfeed, dropLastIf_concat]
    by_cases hreturn : c = '\r'
    · subst hreturn
      rw [if_pos rfl]
      exact ⟨['\r'], by decide, rfl, by decide, by decide, by decide, fun h => absurd h hfeed⟩
    · rw [if_neg hreturn]
      exact ⟨[], by decide, by simp, by decide, fun h => absurd h hreturn,
        fun h => absurd h hfeed, fun h => absurd h hfeed⟩

end Terminators

section Events

/-- How a text stands as JSON: as it is if it is JSON, and else as a string that is read as
the text. -/
structure Embeds (r data : List Char) : Prop where
  verbatim : Grammar .element r → data = r
  quoted : ¬ Grammar .element r → parse? data = some (.string (String.ofList r))

theorem parse?_quoteChars (cs : List Char) :
    parse? (quoteChars cs) = some (.string (String.ofList cs)) := by
  have hflat : (Value.string (String.ofList cs)).nesting ≤ maxDepth := Nat.zero_le _
  have hread := parse?_chars (.string (String.ofList cs))
  rwa [if_pos hflat, Value.chars, String.toList_ofList] at hread

theorem embeds_embedded (r : List Char) : Embeds r (embedded r) where
  verbatim h := if_pos (isText_iff.mpr h)
  quoted h := by
    rw [embedded, if_neg (mt isText_iff.mp h)]
    exact parse?_quoteChars r

theorem memberOf_quoteChars (key : String) (cs : List Char) :
    MemberOf (memberChars key (quoteChars cs)) (key.toList.flatMap escapeChar, quoteChars cs) :=
  memberOf_memberChars key (grammar_quoteChars cs).element_of_value

theorem objectOf_eventChars (cs : List Char) : ObjectOf (eventChars cs)
    [("type".toList, "\"log\"".toList), ("data".toList, embedded (stripTerminator cs))] := by
  rw [eventChars_eq]
  have hdata : MemberOf (memberChars "data" (embedded (stripTerminator cs))) _ :=
    memberOf_memberChars "data" (grammar_embedded _)
  exact .members (by simp [eventMembers])
    (.cons (memberOf_quoteChars "type" "log".toList) (.cons hdata .nil))

/-- **The event of a text.** It is JSON, and an object of just two members: its type, and what
is left of the text without its terminator, as it is or as a string. -/
theorem event_embeds (text : String) : ∃ r data : List Char,
    Unterminated text.toList r ∧ Embeds r data ∧
    Grammar .value (event text).toList ∧
    ∀ members, ObjectOf (event text).toList members ↔
      members = [("type".toList, "\"log\"".toList), ("data".toList, data)] := by
  have hobject := objectOf_eventChars text.toList
  refine ⟨stripTerminator text.toList, embedded (stripTerminator text.toList),
    unterminated_stripTerminator _, embeds_embedded _, ?_, fun members => ?_⟩
  · rw [event, String.toList_ofList]
    exact hobject.grammar
  · rw [event, String.toList_ofList]
    constructor
    · exact fun h => h.unique hobject
    · rintro rfl
      exact hobject

end Events

end LogQuery.Record
