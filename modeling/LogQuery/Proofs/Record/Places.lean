import Mathlib.Data.List.Basic
import LogQuery.Predicate.Field
import LogQuery.Proofs.Json.Reading

/-!
# The places of a path

`Reaches` says, step by step, which places of a value a list of segments leads to. The values
at a path are those of its places, each place once, in the order of keys and positions at the
first step in which two places differ. So a condition asks for a place that satisfies it, and
the first value is that of the first place.
-/

namespace LogQuery.Record

open LogQuery.Json LogQuery.Predicate LogQuery.Decimal

/-- A step down: to the member of a key, or to the item at a position. -/
inductive Step
  | member (key : String)
  | item (position : Nat)

/-- The order of the steps down from one value. -/
inductive Step.Before : Step → Step → Prop
  | member {k l : String} (h : k < l) : Before (.member k) (.member l)
  | item {i j : Nat} (h : i < j) : Before (.item i) (.item j)

/-- The steps that a segment stands for. -/
inductive Step.Fits : Step → String → Prop
  | any (s : Step) : Fits s anySegment
  | member (k : String) : Fits (.member k) k
  | item {segment : String} {i : Nat} (h : index? segment.toList = some i) : Fits (.item i) segment

/-- Where a step leads from a value. Only objects and arrays have anything below them. -/
inductive Step.Leads : Step → Value → Value → Prop
  | member {k : String} {members : List (String × Value)} {child : Value}
      (h : (k, child) ∈ members) : Leads (.member k) (.object members) child
  | item {i : Nat} {items : List Value} {child : Value} (h : items[i]? = some child) :
      Leads (.item i) (.array items) child

/-- The places that a list of segments leads to, with the values there. -/
inductive Reaches : List String → Value → List Step → Value → Prop
  | here (v : Value) : Reaches [] v [] v
  | down {segment : String} {rest : List String} {v child w : Value} {step : Step}
      {steps : List Step} (hfits : step.Fits segment) (hleads : step.Leads v child)
      (h : Reaches rest child steps w) : Reaches (segment :: rest) v (step :: steps) w

section Children

variable {v child : Value} {segment : String} {step : Step} {members : List (String × Value)}

/-- The values one step below a value that fit a segment. -/
def children (segment : String) : Value → List (Step × Value)
  | .object members =>
    if segment == anySegment then members.map fun m => (.member m.1, m.2)
    else (member? segment members).toList.map fun child => (.member segment, child)
  | .array items =>
    if segment == anySegment then items.zipIdx.map fun c => (.item c.2, c.1)
    else (index? segment.toList).toList.flatMap fun i =>
      items[i]?.toList.map fun child => (.item i, child)
  | _ => []

/-- Values are gathered from child to child. -/
theorem valuesAlong_cons (segment : String) (rest : List String) (v : Value) :
    valuesAlong (segment :: rest) v = (children segment v).flatMap fun c => valuesAlong rest c.2 := by
  cases v with
  | object members =>
    rw [valuesAlong, children]
    split
    · rw [List.flatMap_map]
    · cases member? segment members <;> simp
  | array items =>
    rw [valuesAlong, children]
    split
    · rw [List.flatMap_map, ← List.flatMap_map (f := Prod.fst), List.zipIdx_map_fst]
    · cases index? segment.toList with
      | none => rfl
      | some i => cases h : items[i]? <;> simp [h]
  | null | bool | number | string => rfl

theorem member?_eq_some_iff (h : Ascending members) :
    member? segment members = some child ↔ (segment, child) ∈ members := by
  induction members with
  | nil => simp [member?]
  | cons m members ih =>
    obtain ⟨hfirst, hrest⟩ := List.pairwise_cons.mp h
    by_cases hm : m.1 = segment
    · -- no later member has the key of the first one
      have hlater : (segment, child) ∉ members := fun hmem =>
        String.lt_irrefl _ (hm ▸ hfirst _ hmem)
      have hfound : member? segment (m :: members) = some m.2 := by simp [member?, hm]
      rw [hfound, List.mem_cons, or_iff_left hlater, Option.some_inj, Prod.ext_iff]
      exact ⟨fun hchild => ⟨hm.symm, hchild.symm⟩, fun heq => heq.2.symm⟩
    · have hfound : member? segment (m :: members) = member? segment members := by
        simp [member?, hm]
      rw [hfound, ih hrest, List.mem_cons, or_iff_right]
      rintro rfl
      exact hm rfl

/-- The children that fit a segment are those to which a step that fits it leads. -/
theorem mem_children (hv : v.WellFormed) :
    (step, child) ∈ children segment v ↔ step.Fits segment ∧ step.Leads v child := by
  cases hv with
  | @object members hascending _ =>
    rw [children]
    split
    next hany =>
      obtain rfl := eq_of_beq hany
      constructor
      · intro hmem
        obtain ⟨m, hm, heq⟩ := List.mem_map.mp hmem
        cases heq
        exact ⟨.any _, .member hm⟩
      · rintro ⟨-, hleads⟩
        cases hleads with
        | member hm => exact List.mem_map.mpr ⟨_, hm, rfl⟩
    next hany =>
      have hmember : member? segment members = some child ↔ (segment, child) ∈ members :=
        member?_eq_some_iff hascending
      constructor
      · intro hmem
        obtain ⟨w, hw, heq⟩ := List.mem_map.mp hmem
        cases heq
        exact ⟨.member _, .member (hmember.mp (Option.mem_toList.mp hw))⟩
      · rintro ⟨hfits, hleads⟩
        cases hleads with
        | member hm =>
          cases hfits with
          | any => exact absurd rfl hany
          | member => exact List.mem_map.mpr ⟨_, Option.mem_toList.mpr (hmember.mpr hm), rfl⟩
  | @array items _ =>
    rw [children]
    split
    next hany =>
      obtain rfl := eq_of_beq hany
      constructor
      · intro hmem
        obtain ⟨c, hc, heq⟩ := List.mem_map.mp hmem
        cases heq
        exact ⟨.any _, .item (List.mem_zipIdx_iff_getElem?.mp hc)⟩
      · rintro ⟨-, hleads⟩
        cases hleads with
        | item hi => exact List.mem_map.mpr ⟨(child, _), List.mem_zipIdx_iff_getElem?.mpr hi, rfl⟩
    next hany =>
      simp only [List.mem_flatMap, List.mem_map, Option.mem_toList]
      constructor
      · rintro ⟨i, hindex, w, hw, heq⟩
        cases heq
        exact ⟨.item hindex, .item hw⟩
      · rintro ⟨hfits, hleads⟩
        cases hleads with
        | item hi =>
          cases hfits with
          | any => exact absurd rfl hany
          | item hindex => exact ⟨_, hindex, _, hi, rfl⟩
  | null | bool | integer | real | string =>
    refine iff_of_false (List.not_mem_nil) ?_
    rintro ⟨-, hleads⟩
    cases hleads

theorem children_ordered (hv : v.WellFormed) (segment : String) :
    (children segment v).Pairwise fun a b => a.1.Before b.1 := by
  cases hv with
  | @object members hascending _ =>
    rw [children]
    split
    · exact List.pairwise_map.mpr (hascending.imp .member)
    · cases member? segment members <;> simp
  | @array items _ =>
    rw [children]
    split
    · have hpositions : (items.zipIdx.map Prod.snd).Pairwise (· < ·) := by
        rw [List.zipIdx_map_snd]
        exact List.pairwise_lt_range'
      exact List.pairwise_map.mpr ((List.pairwise_map.mp hpositions).imp .item)
    · cases index? segment.toList with
      | none => exact .nil
      | some i => cases h : items[i]? <;> simp [h]
  | null | bool | integer | real | string => exact .nil

theorem wellFormed_of_leads (hv : v.WellFormed) (h : step.Leads v child) : child.WellFormed := by
  cases h with
  | member hm =>
    cases hv with
    | object _ hmembers => exact hmembers _ hm
  | item hi =>
    cases hv with
    | array hitems => exact hitems _ (List.mem_of_getElem? hi)

end Children

section Places

variable {v w : Value} {segments : List String} {steps : List Step}

/-- The places that a list of segments leads to, with the values there. -/
def places : List String → Value → List (List Step × Value)
  | [], v => [([], v)]
  | segment :: rest, v =>
    (children segment v).flatMap fun c => (places rest c.2).map fun p => (c.1 :: p.1, p.2)

theorem map_snd_places (segments : List String) (v : Value) :
    (places segments v).map Prod.snd = valuesAlong segments v := by
  induction segments generalizing v with
  | nil => rfl
  | cons segment rest ih =>
    rw [places, valuesAlong_cons, List.map_flatMap]
    refine List.flatMap_congr fun c _ => ?_
    rw [List.map_map, ← ih]
    rfl

theorem mem_places (hv : v.WellFormed) :
    (steps, w) ∈ places segments v ↔ Reaches segments v steps w := by
  induction segments generalizing v steps with
  | nil =>
    rw [places, List.mem_singleton]
    constructor
    · rintro ⟨⟩
      exact .here _
    · rintro ⟨⟩
      rfl
  | cons segment rest ih =>
    rw [places]
    constructor
    · intro hmem
      obtain ⟨⟨step, child⟩, hchild, hmem⟩ := List.mem_flatMap.mp hmem
      obtain ⟨p, hp, heq⟩ := List.mem_map.mp hmem
      cases heq
      obtain ⟨hfits, hleads⟩ := (mem_children hv).mp hchild
      exact .down hfits hleads ((ih (wellFormed_of_leads hv hleads)).mp hp)
    · intro hreach
      cases hreach with
      | down hfits hleads hrest =>
        have hp := (ih (wellFormed_of_leads hv hleads)).mpr hrest
        exact List.mem_flatMap.mpr
          ⟨_, (mem_children hv).mpr ⟨hfits, hleads⟩, List.mem_map.mpr ⟨_, hp, rfl⟩⟩

theorem wellFormed_of_reaches (hv : v.WellFormed) (h : Reaches segments v steps w) :
    w.WellFormed := by
  induction h with
  | here v => exact hv
  | down _ hleads _ ih => exact ih (wellFormed_of_leads hv hleads)

/-- The values at the places of a well-formed value are well-formed. -/
theorem wellFormed_valuesAlong (hv : v.WellFormed) (hw : w ∈ valuesAlong segments v) :
    w.WellFormed := by
  rw [← map_snd_places] at hw
  obtain ⟨p, hp, rfl⟩ := List.mem_map.mp hw
  exact wellFormed_of_reaches hv ((mem_places hv).mp hp)

theorem nesting_of_leads {child : Value} {step : Step} (h : step.Leads v child) :
    child.nesting + 1 ≤ v.nesting := by
  cases h with
  | member hm => exact Nat.succ_le_succ (nestingOfMembers_le.mp (Nat.le_refl _) _ hm)
  | item hi =>
    exact Nat.succ_le_succ (nestingOfItems_le.mp (Nat.le_refl _) _ (List.mem_of_getElem? hi))

/-- A value is nested less deep than one in which it is found, by a level for each step. -/
theorem nesting_of_reaches (h : Reaches segments v steps w) :
    w.nesting + segments.length ≤ v.nesting := by
  induction h with
  | here v => exact Nat.le_refl _
  | down _ hleads _ ih =>
    have hchild := nesting_of_leads hleads
    rw [List.length_cons]
    omega

/-- Places are in the order of the first steps in which they differ. -/
theorem places_ordered (hv : v.WellFormed) (segments : List String) :
    (places segments v).Pairwise fun a b => List.Lex Step.Before a.1 b.1 := by
  induction segments generalizing v with
  | nil => exact List.pairwise_singleton _ _
  | cons segment rest ih =>
    rw [places, List.pairwise_flatMap]
    constructor
    · rintro ⟨step, child⟩ hchild
      have hwell := wellFormed_of_leads hv ((mem_children hv).mp hchild).2
      exact List.pairwise_map.mpr ((ih hwell).imp .cons)
    · refine (children_ordered hv segment).imp fun {a b} hbefore => ?_
      intro p hp q hq
      obtain ⟨p, -, rfl⟩ := List.mem_map.mp hp
      obtain ⟨q, -, rfl⟩ := List.mem_map.mp hq
      exact .rel hbefore

end Places

section Paths

variable {v w : Value} {segments : List String}

theorem length_children_le {segment : String} (h : segment ≠ anySegment) :
    (children segment v).length ≤ 1 := by
  have hany : (segment == anySegment) = false := beq_eq_false_iff_ne.mpr h
  cases v with
  | object members =>
    rw [children, hany]
    cases member? segment members <;> simp
  | array items =>
    rw [children, hany]
    cases index? segment.toList with
    | none => simp
    | some i => cases hi : items[i]? <;> simp [hi]
  | null | bool | number | string => simp [children]

/-- Without a star a path leads to one place at most. -/
theorem length_valuesAlong_le (h : anySegment ∉ segments) (v : Value) :
    (valuesAlong segments v).length ≤ 1 := by
  induction segments generalizing v with
  | nil => exact Nat.le_refl 1
  | cons segment rest ih =>
    obtain ⟨hsegment, hrest⟩ := not_or.mp (List.mem_cons.not.mp h)
    have hle := length_children_le (v := v) (Ne.symm hsegment)
    rw [valuesAlong_cons]
    match hc : children segment v with
    | [] => exact Nat.zero_le 1
    | [c] => simpa using ih hrest c.2
    | _ :: _ :: _ => simp [hc] at hle

theorem segments_ne_nil (p : Path) : p.segments ≠ [] := by
  rw [Path.segments, Text.dotSegments]
  exact List.map_eq_nil_iff.not.mpr (Text.splitOn_ne_nil _ _)

theorem wellFormed_of_value? {p : Path} (hv : v.WellFormed) (h : p.value? v = some w) :
    w.WellFormed :=
  wellFormed_valuesAlong hv (List.mem_of_head? h)

/-- The value at a path lies below the record. -/
theorem nesting_of_value? {p : Path} (hv : v.WellFormed) (h : p.value? v = some w) :
    w.nesting + 1 ≤ v.nesting := by
  have hmem : w ∈ valuesAlong p.segments v := List.mem_of_head? h
  rw [← map_snd_places] at hmem
  obtain ⟨place, hplace, rfl⟩ := List.mem_map.mp hmem
  have hle := nesting_of_reaches ((mem_places hv).mp hplace)
  have hpos := List.length_pos_of_ne_nil (segments_ne_nil p)
  omega

/-- The value at the first of the places that a list of segments leads to. -/
def IsFirst (segments : List String) (v w : Value) : Prop :=
  ∃ steps, Reaches segments v steps w ∧ ∀ others w', Reaches segments v others w' →
    (others = steps ∧ w' = w) ∨ List.Lex Step.Before steps others

theorem Step.Before.asymm {s t : Step} (h : s.Before t) : ¬ t.Before s := by
  intro h'
  cases h with
  | member h =>
    cases h' with
    | member h' => exact String.lt_asymm h h'
  | item h =>
    cases h' with
    | item h' => exact Nat.lt_asymm h h'

theorem head?_valuesAlong (hv : v.WellFormed) :
    (valuesAlong segments v).head? = some w ↔ IsFirst segments v w := by
  have hmem : ∀ steps w, (steps, w) ∈ places segments v ↔ Reaches segments v steps w :=
    fun steps w => mem_places hv
  have hordered := places_ordered hv segments
  rw [← map_snd_places]
  unfold IsFirst
  simp only [← hmem]
  clear hmem
  generalize places segments v = found at hordered
  cases found with
  | nil => simp
  | cons first later =>
    obtain ⟨hfirst, -⟩ := List.pairwise_cons.mp hordered
    rw [List.map_cons, List.head?_cons, Option.some_inj]
    constructor
    · rintro rfl
      refine ⟨first.1, List.mem_cons_self, fun others w' hother => ?_⟩
      rcases List.mem_cons.mp hother with rfl | hother
      · exact .inl ⟨rfl, rfl⟩
      · exact .inr (hfirst _ hother)
    · rintro ⟨steps, hsteps, hleast⟩
      rcases List.mem_cons.mp hsteps with rfl | hsteps
      · rfl
      · rcases hleast first.1 first.2 List.mem_cons_self with ⟨-, heq⟩ | hlex
        · exact heq
        · exact absurd hlex (List.lex_asymm (fun h => h.asymm) (hfirst _ hsteps))

/-- The values at a path are those of the places that it leads to, in their order. A condition
holds when the value of some place satisfies it; that a field be there means that there is a
first place, whose value is the one that is taken. -/
theorem path_resolved {record : Value} (hrecord : record.WellFormed) :
    (∀ segments, ∃ found : List (List Step × Value),
      found.map Prod.snd = valuesAlong segments record ∧
      (∀ steps w, (steps, w) ∈ found ↔ Reaches segments record steps w) ∧
      found.Pairwise fun a b => List.Lex Step.Before a.1 b.1) ∧
    (∀ c : FieldCondition, c.holds record = true ↔
      ∃ steps w, Reaches c.path.segments record steps w ∧ c.accepts w = true) ∧
    (∀ c : FieldCondition, c.operator = .present →
      (c.holds record = true ↔ (c.path.value? record).isSome = true)) ∧
    (∀ (p : Path) w, p.value? record = some w ↔ IsFirst p.segments record w) ∧
    (∀ segments, anySegment ∉ segments → (valuesAlong segments record).length ≤ 1) := by
  refine ⟨fun segments => ⟨places segments record, map_snd_places segments record,
    fun steps w => mem_places hrecord, places_ordered hrecord segments⟩, fun c => ?_, fun c hc => ?_,
    fun p w => head?_valuesAlong hrecord, fun segments h => length_valuesAlong_le h record⟩
  · rw [FieldCondition.holds, Path.values, List.any_eq_true, ← map_snd_places]
    constructor
    · rintro ⟨w, hw, haccepts⟩
      obtain ⟨p, hp, rfl⟩ := List.mem_map.mp hw
      exact ⟨p.1, p.2, (mem_places hrecord).mp hp, haccepts⟩
    · rintro ⟨steps, w, hreach, haccepts⟩
      exact ⟨w, List.mem_map.mpr ⟨_, (mem_places hrecord).mpr hreach, rfl⟩, haccepts⟩
  · have haccepts : ∀ w, c.accepts w = true := by simp [FieldCondition.accepts, hc]
    cases hvalues : c.path.values record with
    | nil => simp [FieldCondition.holds, Path.value?, hvalues]
    | cons w later => simp [FieldCondition.holds, Path.value?, hvalues, haccepts]

/-- A record with the numbers of two hosts. -/
def twoHosts : Value :=
  .object [("hosts", .array [.object [("id", .number (.integer 1))],
    .object [("id", .number (.integer 7))]])]

/-- The path to the number of any host. -/
def anyHost : Path := ⟨"hosts.*.id"⟩

theorem twoHosts_resolved : twoHosts.WellFormed ∧
    (∃ found : List (List Step × Value),
      found.map Prod.snd = [.number (.integer 1), .number (.integer 7)] ∧
      ∀ steps w, (steps, w) ∈ found ↔ Reaches anyHost.segments twoHosts steps w) ∧
    IsFirst anyHost.segments twoHosts (.number (.integer 1)) ∧
    (FieldCondition.present anyHost).holds twoHosts = true ∧
    ∃ steps w, Reaches anyHost.segments twoHosts steps w ∧
      (FieldCondition.on anyHost (.compare .eq) (.int 7)).accepts w = true := by
  have hhost : ∀ n : Int, InRange n → (Value.object [("id", .number (.integer n))]).WellFormed :=
    fun n hn => .object (List.pairwise_singleton _ _) (List.forall_mem_singleton.mpr (.integer hn))
  have hwell : twoHosts.WellFormed :=
    .object (List.pairwise_singleton _ _) (List.forall_mem_singleton.mpr (.array
      (List.forall_mem_cons.mpr ⟨hhost 1 ⟨by decide, by decide⟩,
        List.forall_mem_singleton.mpr (hhost 7 ⟨by decide, by decide⟩)⟩)))
  have hboth : valuesAlong anyHost.segments twoHosts =
      [.number (.integer 1), .number (.integer 7)] := rfl
  have hvalue : anyHost.value? twoHosts = some (.number (.integer 1)) := congrArg List.head? hboth
  have hseven : (FieldCondition.on anyHost (.compare .eq) (.int 7)).holds twoHosts = true := by
    decide +kernel
  obtain ⟨hplaces, hholds, hpresent, hfirst, -⟩ := path_resolved hwell
  obtain ⟨found, hvalues, hfound, -⟩ := hplaces anyHost.segments
  exact ⟨hwell, ⟨found, hvalues.trans hboth, hfound⟩, (hfirst _ _).mp hvalue,
    (hpresent (.present anyHost) rfl).mpr (congrArg Option.isSome hvalue), (hholds _).mp hseven⟩

end Paths

end LogQuery.Record
