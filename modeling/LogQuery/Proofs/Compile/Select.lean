import LogQuery.Compile.Query
import LogQuery.Proofs.Compile.Meaning

/-!
# What a compiled query matches

A record matches a compiled query when it satisfies WHERE, with plain LIKEs, and has every
field that the columns name.
-/

namespace LogQuery

open LogQuery.Compile LogQuery.Query LogQuery.Sql LogQuery.Predicate LogQuery.Record LogQuery.Json

namespace Compile

/-- Whether the field that an expression names is in a record. -/
def FieldPresent (q : Marked) (record : Value) (e : Expr) : Prop :=
  ∃ p, field q e = .ok p ∧ p.values record ≠ []

/-- Whether the field that a column asks for is in a record, if it asks for one. -/
def ColumnPresent (q : Marked) (record : Value) : Expr → Prop
  | .call _ _ _ arguments _ => ∀ e, Columns.argument? arguments = some e → FieldPresent q record e
  | e => FieldPresent q record e

def ItemPresent (q : Marked) (record : Value) : SelectItem → Prop
  | .star => True
  | .column e | .aliased e _ => ColumnPresent q record e
  | .other _ => False

namespace Columns

variable {q : Marked} {cs cs' : Columns}

/-- Whether columns that ask for values say of which field. -/
def Aggregates (cs : Columns) : Prop :=
  cs.kind = .distinct ∨ cs.kind = .countDistinct → ∃ p, cs.aggregation = some p

/-- What columns add to those before them: conditions that fields be there. -/
structure Adds (cs cs' : Columns) (present : Value → Prop) : Prop where
  conditions : ∃ new, cs'.conditions = cs.conditions ++ new ∧
    ∀ record, (∀ c ∈ new, c.holds record = true) ↔ present record
  aggregates : cs.Aggregates → cs'.Aggregates

theorem adds_refl (cs : Columns) : Adds cs cs fun _ => True where
  conditions := ⟨[], by simp, by simp⟩
  aggregates := id

theorem adds_aggregate (cs : Columns) (p : Path) (kind : ResultKind) :
    Adds cs (cs.aggregate p kind) fun record => p.values record ≠ [] where
  conditions := ⟨[.present p], rfl, fun record => by
    rw [List.forall_mem_singleton]
    exact Conditions.holds_present _⟩
  aggregates _ _ := ⟨p, rfl⟩

theorem adds_project (cs : Columns) (p : Path) (label : String) :
    Adds cs (cs.project p label) fun record => p.values record ≠ [] where
  conditions := ⟨[{ FieldCondition.present p with label := label }], rfl, fun record => by
    rw [List.forall_mem_singleton]
    exact Conditions.holds_present _⟩
  aggregates h := h

theorem adds_addField (distinct : Bool) (cs : Columns) (p : Path) (label : Option String) :
    Adds cs (cs.addField distinct p label) fun record => p.values record ≠ [] := by
  unfold addField
  split
  · exact adds_aggregate cs p .distinct
  · exact adds_project cs p _

theorem Adds.congr {present present' : Value → Prop} (h : Adds cs cs' present)
    (hp : ∀ record, present record ↔ present' record) : Adds cs cs' present' where
  conditions := by
    obtain ⟨new, hnew, hhold⟩ := h.conditions
    exact ⟨new, hnew, fun record => (hhold record).trans (hp record)⟩
  aggregates := h.aggregates

theorem Adds.trans {cs'' : Columns} {present present' : Value → Prop} (h : Adds cs cs' present)
    (h' : Adds cs' cs'' present') : Adds cs cs'' fun record => present record ∧ present' record where
  conditions := by
    obtain ⟨new, hnew, hhold⟩ := h.conditions
    obtain ⟨new', hnew', hhold'⟩ := h'.conditions
    refine ⟨new ++ new', by rw [hnew', hnew, List.append_assoc], fun record => ?_⟩
    rw [List.forall_mem_append, hhold, hhold']
  aggregates ha := h'.aggregates (h.aggregates ha)

theorem fieldPresent_iff {e : Expr} {p : Path} (h : field q e = .ok p) (record : Value) :
    p.values record ≠ [] ↔ FieldPresent q record e := by
  simp [FieldPresent, h]

/-- What a call adds: that records are counted, or the values of the field its argument
names. -/
theorem addCall_eq_ok {name : List Ident} {form : CallForm} {arguments : List Expr}
    {written : String} (h : addCall q cs name form arguments written = .ok cs') :
    (argument? arguments = none ∧ cs' = { cs with kind := .count }) ∨
      ∃ e p kind, argument? arguments = some e ∧ field q e = .ok p ∧ cs' = cs.aggregate p kind := by
  unfold addCall at h
  simp only at h
  split at h
  · cases h
  split at h
  · cases h
  · cases h
    exact .inl ⟨rfl, rfl⟩
  · cases h
    exact .inl ⟨rfl, rfl⟩
  · split at h
    · next e ha =>
      obtain ⟨p, hp, h⟩ := bind_eq_ok.mp h
      cases pure_eq_ok.mp h
      exact .inr ⟨e, p, _, ha, hp, rfl⟩
    · cases h

theorem adds_addCall {name : List Ident} {form : CallForm} {arguments : List Expr}
    {parameters after written : String} (h : addCall q cs name form arguments written = .ok cs') :
    Adds cs cs' fun record =>
      ColumnPresent q record (.call name parameters form arguments after) := by
  rcases addCall_eq_ok h with ⟨ha, rfl⟩ | ⟨e, p, kind, ha, hp, rfl⟩
  · have hcount : Adds cs { cs with kind := .count } fun _ => True :=
      ⟨(adds_refl cs).conditions, fun _ hk => by simp at hk⟩
    exact hcount.congr fun _ => by simp [ColumnPresent, ha]
  · refine (adds_aggregate cs p kind).congr fun record => ?_
    simp [ColumnPresent, ha, fieldPresent_iff hp]

theorem adds_addExpr {distinct : Bool} {e : Expr} {label : Option String}
    (h : addExpr q distinct cs e label = .ok cs') :
    Adds cs cs' fun record => ColumnPresent q record e := by
  unfold addExpr at h
  split at h
  · exact adds_addCall h
  · next hcall =>
    obtain ⟨p, hp, h⟩ := bind_eq_ok.mp h
    cases pure_eq_ok.mp h
    refine (adds_addField distinct cs p label).congr fun record => ?_
    rw [fieldPresent_iff hp, ColumnPresent]
    exact hcall

theorem adds_addItem {distinct : Bool} {item : SelectItem}
    (h : addItem q distinct cs item = .ok cs') :
    Adds cs cs' fun record => ItemPresent q record item := by
  cases item with
  | star =>
    cases h
    exact adds_refl cs
  | column e => exact adds_addExpr h
  | aliased e label => exact adds_addExpr h
  | other written => cases h

/-- What the columns of a query ask for are the fields they name. -/
theorem adds_foldlM {distinct : Bool} {items : List SelectItem}
    (h : items.foldlM (addItem q distinct) cs = .ok cs') :
    Adds cs cs' fun record => ∀ item ∈ items, ItemPresent q record item := by
  induction items generalizing cs with
  | nil =>
    cases pure_eq_ok.mp h
    exact (adds_refl _).congr fun _ => by simp
  | cons item items ih =>
    obtain ⟨cs₁, hitem, hrest⟩ := bind_eq_ok.mp h
    exact ((adds_addItem hitem).trans (ih hrest)).congr fun _ => List.forall_mem_cons.symm

end Columns

end Compile

namespace Plan

variable {q : Marked} {s : Select} {plan : Plan}

/-- A query compiles part by part. -/
theorem ofSelect_eq_ok : ofSelect q s = .ok plan ↔
    s.having = false ∧ s.grouped = false ∧ ∃ conditions distinct columns sources,
      s.condition.elim (.ok .empty) (Conditions.ofExpr q) = .ok conditions ∧
      Compile.distinct q s.duplicates = .ok distinct ∧
      Columns.ofItems q distinct s.items = .ok columns ∧ sourceNames q s.tables = .ok sources ∧
      plan = ⟨sources, conditions.fields ++ columns.conditions, conditions.dates,
        columns.projections, columns.aggregation, columns.kind⟩ := by
  unfold ofSelect
  cases s.having with
  | true => exact iff_of_false (by intro h; cases h) (by simp)
  | false =>
    cases s.grouped with
    | true => exact iff_of_false (by intro h; cases h) (by simp)
    | false =>
      simp only [Bool.false_eq_true, if_false, bind_eq_ok, pure_eq_ok, true_and]
      constructor
      · rintro ⟨conditions, hc, d, hd, columns, hcols, sources, hs, rfl⟩
        exact ⟨conditions, d, columns, sources, hc, hd, hcols, hs, rfl⟩
      · rintro ⟨conditions, d, columns, sources, hc, hd, hcols, hs, rfl⟩
        exact ⟨conditions, hc, d, hd, columns, hcols, sources, hs, rfl⟩

theorem columns_of_ofSelect (h : ofSelect q s = .ok plan) : ∃ columns : Columns,
    Columns.Adds .empty columns (fun record => ∀ item ∈ s.items, ItemPresent q record item) ∧
      plan.aggregation = columns.aggregation ∧ plan.kind = columns.kind := by
  obtain ⟨-, -, conditions, distinct, columns, sources, -, -, hcolumns, -, rfl⟩ := ofSelect_eq_ok.mp h
  exact ⟨columns, Columns.adds_foldlM hcolumns, rfl, rfl⟩

/-- A query for distinct values says of which field. -/
theorem aggregation_of_ofSelect (h : ofSelect q s = .ok plan)
    (hk : plan.kind = .distinct ∨ plan.kind = .countDistinct) :
    ∃ path, plan.aggregation = some path := by
  obtain ⟨columns, hadds, ha, hkind⟩ := columns_of_ofSelect h
  rw [ha]
  exact hadds.aggregates (by simp [Columns.Aggregates, Columns.empty]) (hkind ▸ hk)

/-- What compiles is one SELECT. -/
theorem exists_ofSelect {text : String} (h : ofQuery text = .ok plan) :
    ∃ q s, ofSelect q s = .ok plan := by
  have hstatement : ∃ q statement, ofStatement q statement = .ok plan := by
    simp only [ofQuery] at h
    split at h
    next => cases h
    next => cases h
    next statement _ => exact ⟨_, statement, h⟩
    next => cases h
  obtain ⟨q, statement, h⟩ := hstatement
  revert h
  fun_cases ofStatement q statement with
  | case3 _ _ s => exact fun h => ⟨q, s, h⟩
  | _ => exact fun h => by cases h

/-- A record matches a compiled query when it satisfies WHERE, with plain LIKEs, and has
every field that the columns name. -/
theorem accepts_iff (h : ofSelect q s = .ok plan) (record : Value) :
    plan.accepts record = true ↔
      (∀ e, s.condition = some e → Holds q record (plainLikes e)) ∧
        ∀ item ∈ s.items, ItemPresent q record item := by
  obtain ⟨-, -, conditions, distinct, columns, sources, hconditions, -, hcolumns, -, rfl⟩ :=
    ofSelect_eq_ok.mp h
  obtain ⟨new, hnew, hhold⟩ := (Columns.adds_foldlM hcolumns).conditions
  have hwhere : conditions.Hold record ↔
      ∀ e, s.condition = some e → Holds q record (plainLikes e) := by
    cases hs : s.condition with
    | none =>
      rw [hs] at hconditions
      cases hconditions
      simp [Conditions.Hold, Conditions.empty, datesHold]
    | some e =>
      rw [hs] at hconditions
      simp [Conditions.hold_iff hconditions]
  rw [← hwhere, ← hhold record, accepts, Bool.and_eq_true, List.all_eq_true, hnew, Conditions.Hold]
  simp only [Columns.empty, List.nil_append, List.forall_mem_append]
  tauto

/-- Conditions may be moved and nested in a conjunction without changing what matches. -/
theorem accepts_congr_conjuncts (h : ofSelect q s = .ok plan) {e e' : Expr}
    (he : s.condition = some e) (hperm : (Conditions.conjuncts e').Perm (Conditions.conjuncts e)) :
    ∃ plan', ofSelect q { s with condition := some e' } = .ok plan' ∧
      ∀ record, plan'.accepts record = plan.accepts record := by
  obtain ⟨hh, hg, conditions, d, columns, sources, hconditions, hd, hcolumns, hsources, -⟩ :=
    ofSelect_eq_ok.mp h
  rw [he] at hconditions
  obtain ⟨conditions', hconditions'⟩ := (Conditions.ofExpr_isOk_iff e').mpr fun l hl =>
    (Conditions.ofExpr_isOk_iff e).mp ⟨conditions, hconditions⟩ l (hperm.mem_iff.mp hl)
  have h' : ofSelect q { s with condition := some e' } = .ok _ := ofSelect_eq_ok.mpr
    ⟨hh, hg, conditions', d, columns, sources, hconditions', hd, hcolumns, hsources, rfl⟩
  refine ⟨_, h', fun record => ?_⟩
  rw [Bool.eq_iff_iff, accepts_iff h', accepts_iff h, he]
  simp only [Option.some.injEq, forall_eq']
  rw [Conditions.holds_iff_conjuncts (plainLikes e'), Conditions.holds_iff_conjuncts (plainLikes e)]
  simp only [Conditions.conjuncts_plainLikes, List.forall_mem_map, hperm.mem_iff]

/-- A compiled query matches what its tree means with plain LIKEs, and so what the tree
means if its ESCAPEs are idle. For each of its conditions this is needed. The conditions may
be ordered and nested in any way. -/
theorem ofSelect_means (h : ofSelect q s = .ok plan) :
    (∀ record, plan.accepts record = true ↔
      (∀ e, s.condition = some e → Holds q record (plainLikes e)) ∧
        ∀ item ∈ s.items, ItemPresent q record item) ∧
    ((∀ e, s.condition = some e → EscapesIdle q e) → ∀ record, plan.accepts record = true ↔
      (∀ e, s.condition = some e → Holds q record e) ∧
        ∀ item ∈ s.items, ItemPresent q record item) ∧
    (∀ e, s.condition = some e → ∀ l ∈ Conditions.conjuncts e,
      (∀ record, Holds q record (plainLikes l) ↔ Holds q record l) ↔ EscapesIdle q l) ∧
    ∀ e e', s.condition = some e → (Conditions.conjuncts e').Perm (Conditions.conjuncts e) →
      ∃ plan', ofSelect q { s with condition := some e' } = .ok plan' ∧
        ∀ record, plan'.accepts record = plan.accepts record := by
  refine ⟨accepts_iff h, fun hidle record => ?_, fun e he l hl => ?_,
    fun _ _ => accepts_congr_conjuncts h⟩
  · rw [accepts_iff h]
    refine and_congr_left fun _ => forall₂_congr fun e he => ?_
    exact holds_plainLikes (hidle e he)
  · obtain ⟨-, -, conditions, _, _, _, hconditions, -⟩ := ofSelect_eq_ok.mp h
    rw [he] at hconditions
    obtain ⟨notNested, notConjunction⟩ := Conditions.leaf_of_mem_conjuncts hl
    apply Conditions.holds_plainLikes_iff _ notNested notConjunction
    exact (Conditions.ofExpr_isOk_iff e).mp ⟨conditions, hconditions⟩ l hl

/-- COUNT(*) of the logs with `n > 2 AND host IS NOT NULL`. -/
def largeCount : Select where
  duplicates := .kept
  items := [.column (.call [⟨"COUNT", none⟩] "" (.list none "") [.star] "")]
  tables := [⟨.table [⟨"logs", none⟩], false⟩]
  condition := some (.binary .conjunction
    (.binary (.comparison .gt) (.ident ⟨"n", none⟩) (.literal (.number "2" false)))
    (.isNull true (.ident ⟨"host", none⟩)))
  grouped := false
  having := false

/-- The plan of `largeCount`. -/
def largeCountPlan : Plan where
  sources := ["logs"]
  fields := [.on ⟨"n"⟩ (.compare .gt) (.int 2), .present ⟨"host"⟩]
  dates := []
  projections := []
  aggregation := none
  kind := .count

theorem ofSelect_largeCount : ofSelect (Marked.ofChars []) largeCount = .ok largeCountPlan := rfl

/-- The two conditions of `largeCount` the other way round, the first in parentheses. -/
theorem largeCount_swapped : ∃ plan', ofSelect (Marked.ofChars [])
    { largeCount with
      condition := some (.binary .conjunction
        (.nested (.isNull true (.ident ⟨"host", none⟩)))
        (.binary (.comparison .gt) (.ident ⟨"n", none⟩) (.literal (.number "2" false)))) } =
      .ok plan' ∧ ∀ record, plan'.accepts record = largeCountPlan.accepts record :=
  (ofSelect_means ofSelect_largeCount).2.2.2 _ _ rfl (.swap ..)

/-- All fields of the logs with `a LIKE 'x!%' ESCAPE '!'`. -/
def escapedRun : Select where
  duplicates := .kept
  items := [.star]
  tables := [⟨.table [⟨"logs", none⟩], false⟩]
  condition := some (.like false false false (.ident ⟨"a", none⟩) (.literal (.text "x!%")) (some "!"))
  grouped := false
  having := false

def escapedRunPlan : Plan where
  sources := ["logs"]
  fields := [.on ⟨"a"⟩ .like (.pattern ⟨"x!%", false⟩)]
  dates := []
  projections := []
  aggregation := none
  kind := .search

theorem ofSelect_escapedRun : ofSelect (Marked.ofChars []) escapedRun = .ok escapedRunPlan := rfl

/-- A pattern that asks for `x%` matches `x!y`. -/
theorem escape_overlooked :
    ¬ ∀ (q : Marked) (s : Select) (plan : Plan) (record : Value), ofSelect q s = .ok plan →
      (plan.accepts record = true ↔ (∀ e, s.condition = some e → Holds q record e) ∧
        ∀ item ∈ s.items, ItemPresent q record item) := by
  intro hclaim
  have haccepts : escapedRunPlan.accepts (.object [("a", .string "x!y")]) = true := by
    decide +kernel
  obtain ⟨hholds, -⟩ := (hclaim _ _ _ _ ofSelect_escapedRun).mp haccepts
  obtain ⟨p, text, hp, ht, v, hv, hlike⟩ := hholds _ rfl
  obtain rfl : p = ⟨"a"⟩ := (Except.ok.inj hp).symm
  obtain rfl : text = "x!%" := (Except.ok.inj ht).symm
  obtain rfl : v = .string "x!y" := List.mem_singleton.mp hv
  obtain ⟨c, signs, hc, hreads, hfits⟩ := hlike
  obtain rfl : c = some '!' := (Option.some.inj hc).symm
  have hitself : .itself '%' ∈ signs := by
    change Pattern.Reads _ ['x', '!', '%'] _ at hreads
    cases hreads with
    | written _ hrest =>
      cases hrest with
      | escaped _ _ => simp
      | written hne _ => exact absurd rfl hne
    | escaped he _ => exact absurd he (by decide)
  exact absurd (Pattern.run_mem_of_itself hfits hitself) (by decide)

end Plan

end LogQuery
