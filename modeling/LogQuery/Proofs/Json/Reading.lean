import LogQuery.Proofs.Json.Numbers

/-!
# What reading yields

A value that is read holds integers of 64 bits only, has the members of every object in
strictly ascending order of their keys, and is nested at most as deep as was allowed.
-/

namespace LogQuery.Json

open LogQuery.Decimal

section Members

/-- The keys are in strictly ascending order. -/
def Ascending (members : List (String × Value)) : Prop := members.Pairwise fun m n => m.1 < n.1

variable {members : List (String × Value)} {k : String} {v : Value}

theorem mem_insertMember {m : String × Value} (h : m ∈ insertMember k v members) :
    m = (k, v) ∨ m ∈ members := by
  induction members with
  | nil => exact Or.inl (List.mem_singleton.mp h)
  | cons n members ih =>
    obtain ⟨k', w⟩ := n
    rw [insertMember] at h
    split at h
    · obtain rfl | h := List.mem_cons.mp h
      · exact Or.inl rfl
      · exact Or.inr (List.mem_cons_of_mem _ h)
    split at h
    · exact List.mem_cons.mp h
    · obtain rfl | h := List.mem_cons.mp h
      · exact Or.inr List.mem_cons_self
      · exact (ih h).imp_right (List.mem_cons_of_mem _)

theorem ascending_insertMember (h : Ascending members) : Ascending (insertMember k v members) := by
  induction members with
  | nil => exact List.pairwise_singleton _ _
  | cons n members ih =>
    obtain ⟨k', w⟩ := n
    obtain ⟨hhead, htail⟩ := List.pairwise_cons.mp h
    rw [insertMember]
    split
    next heq =>
      rw [eq_of_beq heq]
      exact List.pairwise_cons.mpr ⟨hhead, htail⟩
    split
    next _ hlt =>
      apply List.pairwise_cons.mpr ⟨_, h⟩
      intro m hm
      obtain rfl | hm := List.mem_cons.mp hm
      · exact hlt
      · exact String.lt_trans hlt (hhead m hm)
    next hne hge =>
      have hlt : k' < k := by
        apply Std.lt_of_le_of_ne (String.not_lt.mp hge)
        rintro rfl
        exact hne (beq_self_eq_true k')
      apply List.pairwise_cons.mpr ⟨_, ih htail⟩
      intro m hm
      obtain rfl | hm := mem_insertMember hm
      · exact hlt
      · exact hhead m hm

/-- A member that is beyond all others is added at the end. -/
theorem insertMember_last (h : ∀ m ∈ members, m.1 < k) :
    insertMember k v members = members ++ [(k, v)] := by
  induction members with
  | nil => rfl
  | cons n members ih =>
    obtain ⟨k', w⟩ := n
    obtain ⟨hlt, htail⟩ := List.forall_mem_cons.mp h
    have hne : (k == k') = false := by
      apply beq_eq_false_iff_ne.mpr
      rintro rfl
      exact String.lt_irrefl k hlt
    rw [insertMember, if_neg (by simp [hne]), if_neg (String.lt_asymm hlt), ih htail]
    rfl

/-- The members of an object, one after the other. -/
def insertAll (members added : List (String × Value)) : List (String × Value) :=
  added.foldl (fun ms (k, v) => insertMember k v ms) members

theorem ofMembers_eq (members : List (String × Value)) :
    Value.ofMembers members = .object (insertAll [] members) := rfl

theorem mem_insertAll {added : List (String × Value)} {m : String × Value}
    (h : m ∈ insertAll members added) : m ∈ members ∨ m ∈ added := by
  induction added generalizing members with
  | nil => exact Or.inl h
  | cons n added ih =>
    obtain ⟨k, v⟩ := n
    obtain h | h := ih h
    · obtain rfl | h := mem_insertMember h
      · exact Or.inr List.mem_cons_self
      · exact Or.inl h
    · exact Or.inr (List.mem_cons_of_mem _ h)

theorem ascending_insertAll {added : List (String × Value)} (h : Ascending members) :
    Ascending (insertAll members added) := by
  induction added generalizing members with
  | nil => exact h
  | cons n added ih => exact ih (ascending_insertMember h)

theorem member?_cons (n : String × Value) (members : List (String × Value)) :
    member? k (n :: members) = if n.1 = k then some n.2 else member? k members := by
  by_cases hn : n.1 = k <;> simp [member?, hn]

theorem member?_append (before after : List (String × Value)) :
    member? k (before ++ after) = (member? k before).or (member? k after) := by
  rw [member?, List.find?_append, Option.map_or]
  rfl

theorem member?_insertMember (l : String) (w : Value) :
    member? k (insertMember l w members) = if l = k then some w else member? k members := by
  induction members with
  | nil => rw [insertMember, member?_cons]
  | cons n members ih =>
    obtain ⟨k', v⟩ := n
    rw [insertMember]
    split
    next heq =>
      obtain rfl := eq_of_beq heq
      by_cases hl : l = k <;> simp [member?_cons, hl]
    split
    next => rw [member?_cons]
    next hne _ =>
      have hother : l ≠ k' := by simpa using hne
      rw [member?_cons, ih, member?_cons]
      by_cases hk : k' = k
      · subst hk
        simp [hother]
      · simp [hk]

/-- Of several members of a key the last one is in the object. -/
theorem member?_insertAll (k : String) (members added : List (String × Value)) :
    member? k (insertAll members added) = (member? k added.reverse).or (member? k members) := by
  induction added generalizing members with
  | nil => rfl
  | cons n added ih =>
    obtain ⟨l, w⟩ := n
    have hstep : insertAll members ((l, w) :: added) = insertAll (insertMember l w members) added :=
      rfl
    rw [hstep, ih, member?_insertMember, List.reverse_cons, member?_append, member?_cons,
      Option.or_assoc]
    split <;> rfl

/-- Members in ascending order are added as they are. -/
theorem insertAll_eq_append {added : List (String × Value)} (h : Ascending (members ++ added)) :
    insertAll members added = members ++ added := by
  induction added generalizing members with
  | nil => exact (List.append_nil members).symm
  | cons n added ih =>
    obtain ⟨k, v⟩ := n
    have hlast : ∀ m ∈ members, m.1 < k := fun m hm =>
      (List.pairwise_append.mp h).2.2 m hm (k, v) List.mem_cons_self
    have hassoc : members ++ (k, v) :: added = (members ++ [(k, v)]) ++ added := by simp
    rw [hassoc] at h ⊢
    rw [← ih h, ← insertMember_last hlast]
    rfl

theorem ofMembers_of_ascending (h : Ascending members) :
    Value.ofMembers members = .object members := by
  have hall : insertAll [] members = [] ++ members := insertAll_eq_append h
  rw [ofMembers_eq, hall, List.nil_append]

end Members

section Values

mutual

/-- How many arrays and objects stand in each other. -/
def Value.nesting : Value → Nat
  | .array items => nestingOfItems items + 1
  | .object members => nestingOfMembers members + 1
  | _ => 0

def nestingOfItems : List Value → Nat
  | [] => 0
  | v :: vs => max v.nesting (nestingOfItems vs)

def nestingOfMembers : List (String × Value) → Nat
  | [] => 0
  | (_, v) :: rest => max v.nesting (nestingOfMembers rest)

end

theorem nestingOfItems_le {items : List Value} {depth : Nat} :
    nestingOfItems items ≤ depth ↔ ∀ v ∈ items, v.nesting ≤ depth := by
  induction items with
  | nil => simp [nestingOfItems]
  | cons v items ih => simp [nestingOfItems, ih]

theorem nestingOfMembers_le {members : List (String × Value)} {depth : Nat} :
    nestingOfMembers members ≤ depth ↔ ∀ m ∈ members, m.2.nesting ≤ depth := by
  induction members with
  | nil => simp [nestingOfMembers]
  | cons m members ih => simp [nestingOfMembers, ih]

/-- A value that can be read: its integers have 64 bits, and its members are in order. -/
inductive Value.WellFormed : Value → Prop
  | null : WellFormed .null
  | bool (b : Bool) : WellFormed (.bool b)
  | integer {n : Int} : InRange n → WellFormed (.number (.integer n))
  | real (x : Binary64) : WellFormed (.number (.real x))
  | string (s : String) : WellFormed (.string s)
  | array {items : List Value} : (∀ v ∈ items, v.WellFormed) → WellFormed (.array items)
  | object {members : List (String × Value)} : Ascending members →
      (∀ m ∈ members, m.2.WellFormed) → WellFormed (.object members)

end Values

section Readers

variable {fuel depth : Nat} {cs rest : List Char} {v : Value}

theorem wellFormed_of_value? {t : NumberText} {n : Number} (h : t.value? = some n) :
    (Value.number n).WellFormed := by
  cases n with
  | real x => exact .real x
  | integer n =>
    have hlt := gather_lt (show 0 < wordSize by decide) t.whole
    apply Value.WellFormed.integer
    unfold NumberText.value? at h
    split at h
    next significand dropped hgather =>
      rw [hgather] at hlt
      extract_lets real? at h
      -- what is scaled is never an integer, so the integer was gathered
      have hreal : ∀ s e, real? s e ≠ some (.integer n) := by
        intro s e hsome
        obtain ⟨x, -, hx⟩ := Option.map_eq_some_iff.mp hsome
        cases hx
      split at h
      · split at h
        · exact absurd h (hreal _ _)
        split at h
        · cases h
          exact ⟨by unfold signBit; omega, by exact_mod_cast hlt⟩
        split at h
        · exact absurd h (hreal _ _)
        next hbit =>
          cases h
          simp only [Bool.or_eq_true, beq_iff_eq, decide_eq_true_eq] at hbit
          exact ⟨by omega, by unfold wordSize; omega⟩
      · exact absurd h (hreal _ _)

/-- What is read is well-formed and nested at most as deep as is allowed. -/
structure ReadsWell (fuel : Nat) : Prop where
  value : ∀ {depth cs v rest}, readValue fuel depth cs = some (v, rest) →
    v.WellFormed ∧ v.nesting ≤ depth
  items : ∀ {depth cs vs rest}, readItems fuel depth cs = some (vs, rest) →
    ∀ v ∈ vs, v.WellFormed ∧ v.nesting ≤ depth
  members : ∀ {depth cs ms rest}, readMembers fuel depth cs = some (ms, rest) →
    ∀ m ∈ ms, m.2.WellFormed ∧ m.2.nesting ≤ depth

theorem readsWell_zero : ReadsWell 0 where
  value h := by cases h
  items h := by cases h
  members h := by cases h

theorem readValue_step (ih : ReadsWell fuel) (h : readValue (fuel + 1) depth cs = some (v, rest)) :
    v.WellFormed ∧ v.nesting ≤ depth := by
  unfold readValue at h
  split at h
  · obtain ⟨⟨s, tail⟩, -, hv⟩ := Option.map_eq_some_iff.mp h
    cases hv
    exact ⟨.string s, Nat.zero_le depth⟩
  · cases depth with
    | zero => cases h
    | succ depth =>
      simp only at h
      split at h
      · cases h
        exact ⟨.array nofun, by simp [Value.nesting, nestingOfItems]⟩
      · obtain ⟨⟨vs, tail⟩, hvs, hv⟩ := Option.map_eq_some_iff.mp h
        cases hv
        have hwell := ih.items hvs
        exact ⟨.array fun v hv => (hwell v hv).1,
          Nat.succ_le_succ (nestingOfItems_le.mpr fun v hv => (hwell v hv).2)⟩
  · cases depth with
    | zero => cases h
    | succ depth =>
      simp only at h
      split at h
      · cases h
        exact ⟨.object List.Pairwise.nil nofun, by simp [Value.nesting, nestingOfMembers]⟩
      · obtain ⟨⟨ms, tail⟩, hms, hv⟩ := Option.map_eq_some_iff.mp h
        cases hv
        have hwell : ∀ m ∈ insertAll [] ms, m.2.WellFormed ∧ m.2.nesting ≤ depth := fun m hm =>
          ih.members hms m ((mem_insertAll hm).resolve_left List.not_mem_nil)
        rw [ofMembers_eq]
        exact ⟨.object (ascending_insertAll List.Pairwise.nil) fun m hm => (hwell m hm).1,
          Nat.succ_le_succ (nestingOfMembers_le.mpr fun m hm => (hwell m hm).2)⟩
  · obtain ⟨tail, -, hv⟩ := Option.map_eq_some_iff.mp h
    cases hv
    exact ⟨.null, Nat.zero_le depth⟩
  · obtain ⟨tail, -, hv⟩ := Option.map_eq_some_iff.mp h
    cases hv
    exact ⟨.bool true, Nat.zero_le depth⟩
  · obtain ⟨tail, -, hv⟩ := Option.map_eq_some_iff.mp h
    cases hv
    exact ⟨.bool false, Nat.zero_le depth⟩
  · obtain ⟨⟨n, tail⟩, hn, hv⟩ := Option.map_eq_some_iff.mp h
    cases hv
    obtain ⟨⟨t, rest⟩, -, ht⟩ := Option.bind_eq_some_iff.mp hn
    obtain ⟨n, hvalue, hn⟩ := Option.map_eq_some_iff.mp ht
    cases hn
    exact ⟨wellFormed_of_value? hvalue, Nat.zero_le depth⟩

theorem readItems_step {vs : List Value} (ih : ReadsWell fuel)
    (h : readItems (fuel + 1) depth cs = some (vs, rest)) :
    ∀ v ∈ vs, v.WellFormed ∧ v.nesting ≤ depth := by
  rw [readItems] at h
  split at h
  · cases h
  next v tail hv =>
    have hhead := ih.value hv
    split at h
    · cases h
      exact List.forall_mem_singleton.mpr hhead
    · obtain ⟨⟨vs, tail⟩, hvs, hcons⟩ := Option.map_eq_some_iff.mp h
      cases hcons
      exact List.forall_mem_cons.mpr ⟨hhead, ih.items hvs⟩
    · cases h

theorem readMembers_step {ms : List (String × Value)} (ih : ReadsWell fuel)
    (h : readMembers (fuel + 1) depth cs = some (ms, rest)) :
    ∀ m ∈ ms, m.2.WellFormed ∧ m.2.nesting ≤ depth := by
  rw [readMembers] at h
  split at h
  · cases h
  split at h
  · split at h
    · cases h
    next v tail hv =>
      have hhead := ih.value hv
      split at h
      · cases h
        exact List.forall_mem_singleton.mpr hhead
      · obtain ⟨⟨ms, tail⟩, hms, hcons⟩ := Option.map_eq_some_iff.mp h
        cases hcons
        exact List.forall_mem_cons.mpr ⟨hhead, ih.members hms⟩
      · cases h
  · cases h

theorem readsWell (fuel : Nat) : ReadsWell fuel := by
  induction fuel with
  | zero => exact readsWell_zero
  | succ fuel ih => exact ⟨readValue_step ih, readItems_step ih, readMembers_step ih⟩

/-- A text that is read as a value is read as a well-formed one, nested within the limit. -/
theorem wellFormed_of_parse? (h : parse? cs = some v) : v.WellFormed ∧ v.nesting ≤ maxDepth := by
  rw [parse?] at h
  split at h
  next v' rest hv =>
    split at h
    · cases h
      exact (readsWell _).value hv
    · cases h
  next => cases h

end Readers

end LogQuery.Json
