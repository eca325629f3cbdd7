import LogQuery.Proofs.Json.Rereading
import LogQuery.Proofs.Record.Output

/-!
# Outputs of projections

Where a record has a value for every projection, its output is an object with a member for
each, in their order. Projections may share a name, and then the object has several members
of one key: whoever reads it is left with the last of them. It can be read, because the
values that are put out lie below the record and so are nested less deep than it.
-/

namespace LogQuery.Record

open LogQuery.Json LogQuery.Text

variable {record : Value} {projections : List Projection} {members : List (String × Value)}

/-- A member shows a projection: under its name, with the first value at its path. -/
def Shows (record : Value) (p : Projection) (m : String × Value) : Prop :=
  m.1 = p.label ∧ p.path.value? record = some m.2

/-- Each projection of which the record has a value is put out as its member. -/
theorem exists_members (h : ∀ p ∈ projections, ∃ v, p.path.value? record = some v) :
    ∃ members, List.Forall₂ (Shows record) projections members ∧
      projections.filterMap (projectionChars record) = membersChars members := by
  induction projections with
  | nil => exact ⟨[], .nil, rfl⟩
  | cons p projections ih =>
    obtain ⟨⟨v, hv⟩, hrest⟩ := List.forall_mem_cons.mp h
    obtain ⟨members, hmembers, hchars⟩ := ih hrest
    have hfirst : projectionChars record p = some (memberChars p.label v.chars) := by
      rw [projectionChars, hv, Option.map_some]
    refine ⟨(p.label, v) :: members, .cons ⟨rfl, hv⟩ hmembers, ?_⟩
    rw [List.filterMap_cons_some hfirst, hchars, membersChars]

/-- Every member shows some projection. -/
theorem exists_shown {m : String × Value} (h : List.Forall₂ (Shows record) projections members)
    (hm : m ∈ members) : ∃ p, Shows record p m := by
  induction h with
  | nil => cases hm
  | @cons p m' _ _ hshows _ ih =>
    rcases List.mem_cons.mp hm with rfl | hm
    · exact ⟨p, hshows⟩
    · exact ih hm

/-- An output is an object with one member for each projection, in their order. It is JSON,
and is read as the object in which each key has what the value of its last member is read
as: this value itself if there is no double in it. -/
structure Projected (record : Value) (projections : List Projection)
    (members : List (String × Value)) (output : List Char) : Prop where
  shown : List.Forall₂ (Shows record) projections members
  chars : output =
    '\x7b' :: (commaChars (members.map fun m => memberChars m.1 m.2.chars) ++ ['\x7d'])
  grammar : Grammar .value output
  read : ∃ found, parse? output = some (.object found) ∧ Ascending found ∧
    ∀ key, member? key found = (member? key members.reverse).bind fun v => parse? v.chars
  same : ∀ m ∈ members, m.2.Floatless → parse? m.2.chars = some m.2

theorem member?_map (key : String) (f : Value → Value) (members : List (String × Value)) :
    member? key (members.map fun m => (m.1, f m.2)) = (member? key members).map f := by
  induction members with
  | nil => rfl
  | cons m members ih =>
    rw [List.map_cons, member?_cons, member?_cons, ih]
    split <;> rfl

theorem mem_of_member? {key : String} {v : Value} (h : member? key members = some v) :
    (key, v) ∈ members := by
  obtain ⟨m, hm, rfl⟩ := Option.map_eq_some_iff.mp h
  have hkey : m.1 = key := by simpa using List.find?_some hm
  rw [← hkey]
  exact List.mem_of_find?_eq_some hm

/-- The members that show projections of a record make up their output. -/
theorem projected (hrecord : record.WellFormed) (hdeep : record.nesting ≤ maxDepth)
    (hshown : List.Forall₂ (Shows record) projections members) :
    Projected record projections members (Value.object members).chars := by
  have hwell : ∀ m ∈ members, m.2.WellFormed := by
    intro m hm
    obtain ⟨p, -, hvalue⟩ := exists_shown hshown hm
    exact wellFormed_of_value? hrecord hvalue
  have hbelow : ∀ m ∈ members, m.2.nesting + 1 ≤ maxDepth := by
    intro m hm
    obtain ⟨p, -, hvalue⟩ := exists_shown hshown hm
    exact (nesting_of_value? hrecord hvalue).trans hdeep
  have hreread : ∀ m ∈ members, parse? m.2.chars = some m.2.reread := fun m hm => by
    rw [parse?_chars (hwell m hm), if_pos (Nat.le_of_succ_le (hbelow m hm))]
  have hchars : (Value.object members).chars =
      '\x7b' :: (commaChars (members.map fun m => memberChars m.1 m.2.chars) ++ ['\x7d']) := by
    rw [Value.chars, membersChars_eq, List.cons_append]
  refine ⟨hshown, hchars, ?_, ?_, ?_⟩
  · rw [hchars]
    exact grammar_object (List.forall_mem_map.mpr fun m hm =>
      grammar_memberChars m.1 (grammar_chars (hwell m hm)).element_of_value)
  · have hfits : (Value.object members).nesting ≤ maxDepth :=
      Nat.succ_le_of_lt (Nat.lt_of_le_of_lt (nestingOfMembers_le.mpr fun m hm =>
        Nat.le_pred_of_lt (hbelow m hm)) (by decide))
    refine ⟨insertAll [] (rereadMembers members), ?_, ascending_insertAll .nil, fun key => ?_⟩
    · rw [parse?_objectChars hwell, if_pos hfits, ofMembers_eq]
    · rw [member?_insertAll, rereadMembers_eq_map, ← List.map_reverse, member?_map]
      cases hlast : member? key members.reverse with
      | none => rfl
      | some v => exact (hreread _ (List.mem_reverse.mp (mem_of_member? hlast))).symm
  · intro m hm hfloatless
    rw [hreread m hm, hfloatless.reread]

/-- The output of a record that has a value for every projection. -/
theorem exists_projected {plan : Plan} {line : Bytes} (hrecord : record.WellFormed)
    (hdeep : record.nesting ≤ maxDepth) (hne : plan.projections ≠ [])
    (hvalues : ∀ p ∈ plan.projections, ∃ v, p.path.value? record = some v) :
    ∃ members, Projected record plan.projections members (outputChars plan line record) := by
  obtain ⟨members, hshown, hchars⟩ := exists_members hvalues
  have hout : outputChars plan line record = (Value.object members).chars := by
    rw [outputChars, if_neg (by simpa using hne), hchars, Value.chars]
  exact ⟨members, hout ▸ projected hrecord hdeep hshown⟩

end LogQuery.Record
