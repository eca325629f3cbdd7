import LogQuery.Engine.Query
import LogQuery.Proofs.Compile.Select

/-!
# Compiled queries are well formed

An operator and an operand that do not belong together are satisfied by nothing, and
counts of values of no field are empty, so a plan that held either would answer nothing
and give no reason. No tree is compiled to such a plan, whatever columns it names in
whatever order: a judge that knows an answer only where operator and operand belong
together always knows one.
-/

namespace LogQuery

open LogQuery.Compile LogQuery.Query LogQuery.Sql LogQuery.Predicate LogQuery.Record LogQuery.Json
open LogQuery.Calendar LogQuery.Decimal

namespace Predicate

section Judges

/-! ## Operators and their operands -/

/-- The operands that an operator is for. -/
inductive Belongs : Operator → Operand → Prop
  | present : Belongs .present .none
  | int (c : Comparison) {n : Int} (h : isInt64 n = true) : Belongs (.compare c) (.int n)
  | real (c : Comparison) (x : Binary64) : Belongs (.compare c) (.real (.finite x))
  | eqText (s : String) : Belongs (.compare .eq) (.text s)
  | neText (s : String) : Belongs (.compare .ne) (.text s)
  | intSet {ns : List Int} (h : ∀ n ∈ ns, isInt64 n = true) : Belongs .oneOf (.intSet ns)
  | textSet (ss : List String) : Belongs .oneOf (.textSet ss)
  | like {p : Pattern} (h : p.ignoreCase = false) : Belongs .like (.pattern p)
  | ilike {p : Pattern} (h : p.ignoreCase = true) : Belongs .ilike (.pattern p)

/-- Whether an operator holds of an order, if it compares. -/
def Operator.judge? (op : Operator) (o : Ordering) : Option Bool :=
  match op with
  | .compare c => some (c.holds o)
  | _ => none

/-- Whether a value satisfies an operator with an operand, if there is an answer of their
own and not only that nothing satisfies them. -/
def Operand.judge? (operand : Operand) (op : Operator) (observed : Value) : Option Bool :=
  match operand, observed with
  | .none, _ => Option.none
  | .int expected, .number n => op.judge? (compareToInt n expected)
  | .int _, _ => some false
  | .real expected, .number n => (Extended.orderOf? n.toDouble expected).elim (some false) op.judge?
  | .real _, _ => some false
  | .intSet ns, .number n => some (ns.any fun m => compareToInt n m == .eq)
  | .intSet _, _ => some false
  | .text s, v =>
    match op with
    | .compare .eq => some (render v == s)
    | .compare .ne => some (render v != s)
    | _ => Option.none
  | .textSet ss, v => some (ss.contains (render v))
  | .pattern p, v => some (p.isMatch (render v))

def FieldCondition.judge? (c : FieldCondition) (observed : Value) : Option Bool :=
  if c.operator == .present then some true else c.operand.judge? c.operator observed

namespace DateCondition

/-- How a day stands to the day of a condition, if its operator says so. -/
def judgeComparedDay? (c : DateCondition) (d : Day) : Option Bool :=
  match c.operator with
  | .present => some true
  | .compare cmp => some (cmp.holds (compare d c.day))
  | _ => none

/-- Whether an instant is accepted, if the operator says so. -/
def judgeInstant? (c : DateCondition) (t : Instant) : Option Bool :=
  if c.dateOnly then c.judgeComparedDay? t.day
  else
    match c.operator with
    | .present => some true
    | .compare cmp => some (cmp.holds (compare t c.timestamp))
    | _ => none

/-- Whether a day may hold an accepted instant, if the operator says so. -/
def judgeDay? (c : DateCondition) (d : Day) : Option Bool :=
  if c.dateOnly then c.judgeComparedDay? d
  else
    match c.operator with
    | .present | .compare .ne => some true
    | .compare .eq => some (compare d c.day == .eq)
    | .compare .gt | .compare .ge => some (compare d c.day != .lt)
    | .compare .lt | .compare .le => some (compare d c.day != .gt)
    | _ => none

end DateCondition

/-! ## The judges and the conditions -/

theorem holds_eq_judge? (op : Operator) (o : Ordering) : op.holds o = (op.judge? o).getD false := by
  cases op <;> rfl

theorem operand_accepts_eq_judge? (operand : Operand) (op : Operator) (v : Value) :
    operand.accepts op v = (operand.judge? op v).getD false := by
  cases operand with
  | none => rfl
  | int n => cases v <;> simp [Operand.accepts, Operand.judge?, holds_eq_judge?]
  | real x =>
    cases v with
    | number m =>
      simp only [Operand.accepts, Operand.judge?]
      cases Extended.orderOf? m.toDouble x with
      | none => rfl
      | some o => exact holds_eq_judge? op o
    | _ => rfl
  | intSet ns => cases v <;> rfl
  | text s =>
    cases op with
    | compare c => cases c <;> rfl
    | _ => rfl
  | textSet ss => rfl
  | pattern p => rfl

/-- Where the judge knows no answer, nothing satisfies the condition. -/
theorem accepts_eq_judge? (c : FieldCondition) (v : Value) :
    c.accepts v = (c.judge? v).getD false := by
  unfold FieldCondition.accepts FieldCondition.judge?
  cases c.operator == .present with
  | true => rfl
  | false => simp [operand_accepts_eq_judge?]

theorem acceptsInstant_eq_judge? (c : DateCondition) (t : Instant) :
    c.acceptsInstant t = (c.judgeInstant? t).getD false := by
  unfold DateCondition.acceptsInstant DateCondition.judgeInstant? DateCondition.comparesDay
    DateCondition.judgeComparedDay?
  cases c.dateOnly <;> cases c.operator <;> rfl

theorem acceptsDay_eq_judge? (c : DateCondition) (d : Day) :
    c.acceptsDay d = (c.judgeDay? d).getD false := by
  unfold DateCondition.acceptsDay DateCondition.judgeDay? DateCondition.comparesDay
    DateCondition.judgeComparedDay?
  cases c.dateOnly with
  | true => cases c.operator <;> rfl
  | false =>
    cases c.operator with
    | compare cmp => cases cmp <;> rfl
    | _ => rfl

theorem operand_judge?_isSome {op : Operator} {operand : Operand} (h : Belongs op operand)
    (hop : op ≠ .present) (v : Value) : (operand.judge? op v).isSome = true := by
  cases h with
  | present => exact absurd rfl hop
  | int c h => cases v <;> rfl
  | real c x => cases v <;> rfl
  | intSet h => cases v <;> rfl
  | eqText | neText | textSet | like | ilike => rfl

theorem eq_some_of_isSome {judged : Option Bool} {accepted : Bool} (h : accepted = judged.getD false)
    (hsome : judged.isSome = true) : judged = some accepted := by
  obtain ⟨b, hb⟩ := Option.isSome_iff_exists.mp hsome
  rw [h, hb, Option.getD_some]

/-- What belongs together is always judged. -/
theorem judge?_of_belongs {c : FieldCondition} (h : Belongs c.operator c.operand) (v : Value) :
    c.judge? v = some (c.accepts v) := by
  refine eq_some_of_isSome (accepts_eq_judge? c v) ?_
  unfold FieldCondition.judge?
  split
  · rfl
  · next hop => exact operand_judge?_isSome h (by simpa using hop) v

end Judges

/-! ## Conditions on the date -/

/-- A condition on the date as a comparison with a literal makes it. Of a day the first
second counts, or the last one where the whole day is accepted as well. -/
structure DateCondition.WellFormed (c : DateCondition) : Prop where
  comparison : ∃ cmp, c.operator = .compare cmp
  boundary : c.boundary = .last ↔ c.operator = .compare .lt ∨ c.operator = .compare .le
  time : c.dateOnly = true → c.timestamp.nano = 0 ∧ c.timestamp.secondOfDay =
    if c.operator = .compare .le then 23 * 3600 + 59 * 60 + 59 else 0

section Dates

variable {c : DateCondition}

theorem secondOfDay_at (d : Day) {second nano : Nat} (h : second < 86400) :
    (d.at second nano).secondOfDay = second := by
  simp only [Day.at, Instant.secondOfDay, secondsPerDay]
  omega

theorem boundaryOf_eq_last (cmp : Comparison) : DateCondition.boundaryOf (.compare cmp) = .last ↔
    Operator.compare cmp = .compare .lt ∨ Operator.compare cmp = .compare .le := by
  cases cmp <;> decide

theorem wellFormed_parse {text : String} {cmp : Comparison}
    (h : DateCondition.parse text (.compare cmp) = .ok c) : c.WellFormed := by
  unfold DateCondition.parse at h
  simp only at h
  split at h
  · cases h
    have hsecond : (if Operator.compare cmp == .compare .le then DateCondition.endOfDay else 0) =
        if Operator.compare cmp = .compare .le then 23 * 3600 + 59 * 60 + 59 else 0 := by
      simp only [beq_iff_eq, DateCondition.endOfDay]
    exact ⟨⟨cmp, rfl⟩, boundaryOf_eq_last cmp, fun _ =>
      ⟨rfl, (secondOfDay_at _ (by split <;> decide)).trans hsecond⟩⟩
  · split at h
    · cases h
      exact ⟨⟨cmp, rfl⟩, boundaryOf_eq_last cmp, fun hd => by cases hd⟩
    · cases h

theorem DateCondition.WellFormed.judgeInstant? (h : c.WellFormed) (t : Instant) :
    c.judgeInstant? t = some (c.acceptsInstant t) := by
  obtain ⟨cmp, hop⟩ := h.comparison
  refine eq_some_of_isSome (acceptsInstant_eq_judge? c t) ?_
  unfold DateCondition.judgeInstant? DateCondition.judgeComparedDay?
  rw [hop]
  cases c.dateOnly <;> rfl

theorem DateCondition.WellFormed.judgeDay? (h : c.WellFormed) (d : Day) :
    c.judgeDay? d = some (c.acceptsDay d) := by
  obtain ⟨cmp, hop⟩ := h.comparison
  refine eq_some_of_isSome (acceptsDay_eq_judge? c d) ?_
  unfold DateCondition.judgeDay? DateCondition.judgeComparedDay?
  rw [hop]
  cases c.dateOnly <;> cases cmp <;> rfl

end Dates

end Predicate

namespace Compile

/-! ## Conditions of WHERE -/

theorem isInt64_of_int64? {cs : List Char} {n : Int} (h : int64? cs = some n) :
    isInt64 n = true := by
  unfold int64? at h
  obtain ⟨m, -, h⟩ := Option.bind_eq_some_iff.mp h
  simp only [Option.ite_none_right_eq_some] at h
  obtain ⟨hm, hn⟩ := h
  exact Option.some.inj hn ▸ hm

theorem exists_of_mem_mapM {α β : Type} {f : α → Option β} {xs : List α} {ys : List β}
    (h : xs.mapM f = some ys) : ∀ y ∈ ys, ∃ x, f x = some y := by
  induction xs generalizing ys with
  | nil =>
    cases h
    simp
  | cons x xs ih =>
    rw [List.mapM_cons] at h
    obtain ⟨y, hy, h⟩ := Option.bind_eq_some_iff.mp h
    obtain ⟨ys', hys, h⟩ := Option.bind_eq_some_iff.mp h
    cases h
    exact List.forall_mem_cons.mpr ⟨⟨x, hy⟩, ih hys⟩

theorem belongs_typedOperand {p : Path} {c : Comparison} {text : String} {operand : Operand}
    (h : typedOperand p c text = .ok operand) : Belongs (.compare c) operand := by
  unfold typedOperand at h
  split at h
  · next hn =>
    cases h
    exact .int c (isInt64_of_int64? hn)
  · cases h
    exact .real c _
  · split at h
    · next hc =>
      cases h
      rcases (by simpa using hc : c = .eq ∨ c = .ne) with rfl | rfl
      · exact .eqText text
      · exact .neText text
    · cases h

theorem belongs_setOperand (texts : List String) : Belongs .oneOf (setOperand texts) := by
  unfold setOperand
  split
  · next hns =>
    refine .intSet fun n hn => ?_
    obtain ⟨s, hs⟩ := exists_of_mem_mapM hns n hn
    exact isInt64_of_int64? hs
  · exact .textSet texts

theorem ofSource?_ignoreCase {text : String} {ignoreCase : Bool} {p : Pattern}
    (h : Pattern.ofSource? text ignoreCase = some p) : p.ignoreCase = ignoreCase := by
  unfold Pattern.ofSource? at h
  simp only [Option.ite_none_left_eq_some] at h
  exact Option.some.inj h.2 ▸ rfl

namespace Conditions

/-- Conditions as WHERE makes them: none on fields is about the date. -/
structure WellFormed (cs : Conditions) : Prop where
  typed : ∀ c ∈ cs.fields, Belongs c.operator c.operand
  undated : ∀ c ∈ cs.fields, isDate c.path = false
  dates : ∀ c ∈ cs.dates, c.WellFormed

variable {q : Marked} {cs : Conditions} {p : Path} {text : String}

theorem wellFormed_empty : WellFormed .empty where
  typed := by simp [empty]
  undated := by simp [empty]
  dates := by simp [empty]

theorem WellFormed.append {a b : Conditions} (ha : a.WellFormed) (hb : b.WellFormed) :
    (a ++ b).WellFormed where
  typed := List.forall_mem_append.mpr ⟨ha.typed, hb.typed⟩
  undated := List.forall_mem_append.mpr ⟨ha.undated, hb.undated⟩
  dates := List.forall_mem_append.mpr ⟨ha.dates, hb.dates⟩

theorem wellFormed_ofField {op : Operator} {operand : Operand} (hp : isDate p = false)
    (h : Belongs op operand) : (ofField (.on p op operand)).WellFormed where
  typed := List.forall_mem_singleton.mpr h
  undated := List.forall_mem_singleton.mpr hp
  dates := by simp [ofField]

theorem wellFormed_ofDate {c : Comparison} (h : ofDate (.compare c) text = .ok cs) :
    cs.WellFormed := by
  unfold ofDate at h
  split at h
  · next hd =>
    cases h
    exact ⟨by simp, by simp, List.forall_mem_singleton.mpr (wellFormed_parse hd)⟩
  · cases h

theorem wellFormed_compare {c : Comparison} (h : compare p c text = .ok cs) : cs.WellFormed := by
  unfold compare at h
  split at h
  · exact wellFormed_ofDate h
  · next hp =>
    obtain ⟨operand, ho, hcs⟩ := bind_eq_ok.mp h
    cases pure_eq_ok.mp hcs
    exact wellFormed_ofField (by simpa using hp) (belongs_typedOperand ho)

theorem wellFormed_present (p : Path) : (present p).WellFormed := by
  unfold present
  split
  · exact wellFormed_empty
  · next hp => exact wellFormed_ofField (by simpa using hp) .present

theorem wellFormed_like {ignoreCase : Bool} (h : like p ignoreCase text = .ok cs) :
    cs.WellFormed := by
  unfold like at h
  simp only at h
  split at h
  · cases ignoreCase <;> cases h
  · next hp =>
    split at h
    · next pattern hpattern =>
      cases h
      have hcase := ofSource?_ignoreCase hpattern
      refine wellFormed_ofField (by simpa using hp) ?_
      cases ignoreCase with
      | false => exact .like hcase
      | true => exact .ilike hcase
    · cases h

theorem wellFormed_oneOf {texts : List String} (h : oneOf p texts = .ok cs) : cs.WellFormed := by
  unfold oneOf at h
  split at h
  · cases h
  · next hp =>
    cases h
    exact wellFormed_ofField (by simpa using hp) (belongs_setOperand texts)

/-- Whatever tree WHERE is, its conditions are well formed. -/
theorem wellFormed_ofExpr {e : Expr} (h : ofExpr q e = .ok cs) : cs.WellFormed := by
  fun_induction ofExpr q e generalizing cs with
  | case1 e ih => exact ih h
  | case2 l r ihl ihr =>
    obtain ⟨a, ha, h⟩ := bind_eq_ok.mp h
    obtain ⟨b, hb, h⟩ := bind_eq_ok.mp h
    cases pure_eq_ok.mp h
    exact (ihl ha).append (ihr hb)
  | case3 c l r =>
    obtain ⟨p, -, h⟩ := bind_eq_ok.mp h
    obtain ⟨text, -, h⟩ := bind_eq_ok.mp h
    exact wellFormed_compare h
  | case4 e low high =>
    obtain ⟨p, -, h⟩ := bind_eq_ok.mp h
    obtain ⟨lowText, -, h⟩ := bind_eq_ok.mp h
    obtain ⟨highText, -, h⟩ := bind_eq_ok.mp h
    obtain ⟨a, ha, h⟩ := bind_eq_ok.mp h
    obtain ⟨b, hb, h⟩ := bind_eq_ok.mp h
    cases pure_eq_ok.mp h
    exact (wellFormed_compare ha).append (wellFormed_compare hb)
  | case5 e list =>
    obtain ⟨p, -, h⟩ := bind_eq_ok.mp h
    obtain ⟨texts, -, h⟩ := bind_eq_ok.mp h
    exact wellFormed_oneOf h
  | case6 ignoreCase any e pattern escape =>
    obtain ⟨p, -, h⟩ := bind_eq_ok.mp h
    obtain ⟨text, -, h⟩ := bind_eq_ok.mp h
    exact wellFormed_like h
  | case7 e =>
    obtain ⟨p, -, h⟩ := bind_eq_ok.mp h
    cases pure_eq_ok.mp h
    exact wellFormed_present p
  | case8 e => cases h

theorem wellFormed_condition {condition : Option Expr}
    (h : condition.elim (.ok .empty) (ofExpr q) = .ok cs) : cs.WellFormed := by
  cases condition with
  | none =>
    cases h
    exact wellFormed_empty
  | some e => exact wellFormed_ofExpr h

end Conditions

/-! ## Columns -/

namespace Columns

variable {q : Marked} {cs cs' : Columns}

/-- What one column may do to those before it. -/
inductive Extends (cs : Columns) : Columns → Prop
  | star : Extends cs cs
  | count : Extends cs { cs with kind := .count }
  | aggregate (p : Path) (kind : ResultKind) : Extends cs (cs.aggregate p kind)
  | project (p : Path) (label : String) : Extends cs (cs.project p label)

theorem extends_addField (distinct : Bool) (cs : Columns) (p : Path) (label : Option String) :
    cs.Extends (cs.addField distinct p label) := by
  unfold addField
  split
  · exact .aggregate p _
  · exact .project p _

theorem extends_addCall {name : List Ident} {form : CallForm} {arguments : List Expr}
    {written : String} (h : addCall q cs name form arguments written = .ok cs') :
    cs.Extends cs' := by
  rcases addCall_eq_ok h with ⟨-, rfl⟩ | ⟨_, p, kind, -, -, rfl⟩
  · exact .count
  · exact .aggregate p kind

theorem extends_addExpr {distinct : Bool} {e : Expr} {label : Option String}
    (h : addExpr q distinct cs e label = .ok cs') : cs.Extends cs' := by
  unfold addExpr at h
  split at h
  · exact extends_addCall h
  · obtain ⟨p, -, h⟩ := bind_eq_ok.mp h
    cases pure_eq_ok.mp h
    exact extends_addField distinct cs p label

theorem extends_addItem {distinct : Bool} {item : SelectItem}
    (h : addItem q distinct cs item = .ok cs') : cs.Extends cs' := by
  cases item with
  | star =>
    cases h
    exact .star
  | column e => exact extends_addExpr h
  | aliased e label => exact extends_addExpr h
  | other written => cases h

/-- Every field that the columns name is asked for. The field of an earlier count stays
asked for when a later one wins. -/
structure Guarded (cs : Columns) : Prop where
  present : ∀ c ∈ cs.conditions, c.operator = .present ∧ c.operand = .none
  aggregates : cs.Aggregates
  aggregation : ∀ p, cs.aggregation = some p → ∃ c ∈ cs.conditions, c.path = p
  projections : ∀ p ∈ cs.projections, ∃ c ∈ cs.conditions, c.path = p.path ∧ c.label = p.label

theorem guarded_empty : Guarded .empty where
  present := by simp [empty]
  aggregates := by simp [Aggregates, empty]
  aggregation := by simp [empty]
  projections := by simp [empty]

theorem Guarded.count (h : cs.Guarded) : Guarded { cs with kind := .count } where
  present := h.present
  aggregates hk := by simp at hk
  aggregation := h.aggregation
  projections := h.projections

theorem Guarded.aggregate (h : cs.Guarded) (p : Path) (kind : ResultKind) :
    (cs.aggregate p kind).Guarded where
  -- The field counted before is forgotten, but its condition is not.
  present := List.forall_mem_append.mpr ⟨h.present, List.forall_mem_singleton.mpr ⟨rfl, rfl⟩⟩
  aggregates _ := ⟨p, rfl⟩
  aggregation p' hp' := by
    cases hp'
    exact ⟨.present p, List.mem_append_right _ (List.mem_singleton_self _), rfl⟩
  projections p' hp' := by
    obtain ⟨c, hc, hsame⟩ := h.projections p' hp'
    exact ⟨c, List.mem_append_left _ hc, hsame⟩

theorem Guarded.project (h : cs.Guarded) (p : Path) (label : String) :
    (cs.project p label).Guarded where
  present := List.forall_mem_append.mpr ⟨h.present, List.forall_mem_singleton.mpr ⟨rfl, rfl⟩⟩
  aggregates := h.aggregates
  aggregation p' hp' := by
    obtain ⟨c, hc, hpath⟩ := h.aggregation p' hp'
    exact ⟨c, List.mem_append_left _ hc, hpath⟩
  projections := by
    refine List.forall_mem_append.mpr ⟨fun p' hp' => ?_, List.forall_mem_singleton.mpr ?_⟩
    · obtain ⟨c, hc, hsame⟩ := h.projections p' hp'
      exact ⟨c, List.mem_append_left _ hc, hsame⟩
    · exact ⟨_, List.mem_append_right _ (List.mem_singleton_self _), rfl, rfl⟩

theorem Guarded.extend (h : cs.Guarded) (he : cs.Extends cs') : cs'.Guarded := by
  cases he with
  | star => exact h
  | count => exact h.count
  | aggregate p kind => exact h.aggregate p kind
  | project p label => exact h.project p label

/-- Whatever columns follow in whatever order, all stay asked for. -/
theorem Guarded.foldlM {distinct : Bool} {items : List SelectItem} (h : cs.Guarded)
    (hrun : items.foldlM (addItem q distinct) cs = .ok cs') : cs'.Guarded := by
  induction items generalizing cs with
  | nil =>
    cases pure_eq_ok.mp hrun
    exact h
  | cons item items ih =>
    obtain ⟨cs₁, hitem, hrest⟩ := bind_eq_ok.mp hrun
    exact ih (h.extend (extends_addItem hitem)) hrest

theorem guarded_ofItems {distinct : Bool} {items : List SelectItem}
    (h : ofItems q distinct items = .ok cs) : cs.Guarded := guarded_empty.foldlM h

end Columns

/-! ## Sources -/

theorem nodup_eraseDups {α : Type} [BEq α] [LawfulBEq α] : ∀ xs : List α, xs.eraseDups.Nodup
  | [] => by simp
  | x :: xs => by
    rw [List.eraseDups_cons, List.nodup_cons]
    exact ⟨by simp, nodup_eraseDups _⟩
termination_by xs => xs.length
decreasing_by exact Nat.lt_succ_of_le (List.length_filter_le _ _)

theorem sourceNames_eq_ok {q : Marked} {ts : List TableRef} {sources : List String}
    (h : sourceNames q ts = .ok sources) : sources ≠ [] ∧ sources.Nodup := by
  unfold sourceNames at h
  cases ts with
  | nil => cases h
  | cons t ts =>
    simp only [List.isEmpty_cons, Bool.false_eq_true, if_false, List.mapM_cons] at h
    obtain ⟨names, hnames, h⟩ := bind_eq_ok.mp h
    obtain ⟨name, -, hnames⟩ := bind_eq_ok.mp hnames
    obtain ⟨rest, -, hnames⟩ := bind_eq_ok.mp hnames
    cases pure_eq_ok.mp h
    cases pure_eq_ok.mp hnames
    exact ⟨by simp [List.eraseDups_cons], nodup_eraseDups _⟩

end Compile

namespace Plan

variable {q : Marked} {s : Select} {plan : Plan} {conditions : Conditions}

/-- What is true of a plan whose WHERE makes some conditions. -/
structure WellFormed (plan : Plan) (conditions : Conditions) : Prop where
  sources_ne : plan.sources ≠ []
  sources_nodup : plan.sources.Nodup
  fields : ∃ columns, plan.fields = conditions.fields ++ columns ∧
    ∀ c ∈ columns, c.operator = .present
  dates : plan.dates = conditions.dates
  undated : ∀ c ∈ conditions.fields, lowerAscii c.path.text.toList ≠ "date".toList
  typed : ∀ c ∈ plan.fields, Belongs c.operator c.operand
  dated : ∀ c ∈ plan.dates, c.WellFormed
  aggregation : plan.kind = .distinct ∨ plan.kind = .countDistinct →
    ∃ p, plan.aggregation = some p ∧ ∃ c ∈ plan.fields, c.path = p ∧ c.operator = .present
  projections : ∀ p ∈ plan.projections,
    ∃ c ∈ plan.fields, c.path = p.path ∧ c.label = p.label ∧ c.operator = .present

/-- Every condition is judged, and counts of values are those of a field. -/
structure Judged (plan : Plan) : Prop where
  fields : ∀ c ∈ plan.fields, ∀ v, c.judge? v = some (c.accepts v)
  instants : ∀ c ∈ plan.dates, ∀ t, c.judgeInstant? t = some (c.acceptsInstant t)
  days : ∀ c ∈ plan.dates, ∀ d, c.judgeDay? d = some (c.acceptsDay d)
  counted : plan.kind = .distinct ∨ plan.kind = .countDistinct →
    ∃ path, ∀ config fs files cancelled events,
      Engine.valuesUnder config fs plan files cancelled events =
        (Engine.scanUnder config fs (Engine.countingValues plan path) files cancelled events).map
          fun found => found.map fun counts => counts.foldl .merge .empty

theorem WellFormed.judged (h : plan.WellFormed conditions) : plan.Judged where
  fields c hc := judge?_of_belongs (h.typed c hc)
  instants c hc := (h.dated c hc).judgeInstant?
  days c hc := (h.dated c hc).judgeDay?
  counted hk := by
    obtain ⟨path, hpath, -⟩ := h.aggregation hk
    refine ⟨path, fun config fs files cancelled events => ?_⟩
    rw [Engine.valuesUnder, hpath]

theorem wellFormed_of_parts {columns : Columns} {sources : List String}
    (hc : conditions.WellFormed) (hg : columns.Guarded) (hne : sources ≠ []) (hnd : sources.Nodup) :
    WellFormed ⟨sources, conditions.fields ++ columns.conditions, conditions.dates,
      columns.projections, columns.aggregation, columns.kind⟩ conditions where
  sources_ne := hne
  sources_nodup := hnd
  fields := ⟨columns.conditions, rfl, fun c hc => (hg.present c hc).1⟩
  dates := rfl
  undated c hmem := by simpa [isDate, dateField] using hc.undated c hmem
  typed := by
    refine List.forall_mem_append.mpr ⟨hc.typed, fun c hmem => ?_⟩
    obtain ⟨hop, hoperand⟩ := hg.present c hmem
    rw [hop, hoperand]
    exact .present
  dated := hc.dates
  aggregation hk := by
    obtain ⟨p, hp⟩ := hg.aggregates hk
    obtain ⟨c, hmem, hpath⟩ := hg.aggregation p hp
    exact ⟨p, hp, c, List.mem_append_right _ hmem, hpath, (hg.present c hmem).1⟩
  projections p hp := by
    obtain ⟨c, hmem, hpath, hlabel⟩ := hg.projections p hp
    exact ⟨c, List.mem_append_right _ hmem, hpath, hlabel, (hg.present c hmem).1⟩

/-- Every plan of a tree is well formed, and so judged throughout. -/
theorem ofSelect_wellFormed (h : ofSelect q s = .ok plan) : ∃ conditions : Conditions,
    s.condition.elim (.ok .empty) (Conditions.ofExpr q) = .ok conditions ∧
      plan.WellFormed conditions ∧ plan.Judged := by
  obtain ⟨-, -, conditions, distinct, columns, sources, hconditions, -, hcolumns, hsources, rfl⟩ :=
    ofSelect_eq_ok.mp h
  obtain ⟨hne, hnd⟩ := sourceNames_eq_ok hsources
  have hwell := wellFormed_of_parts (Conditions.wellFormed_condition hconditions)
    (Columns.guarded_ofItems hcolumns) hne hnd
  exact ⟨conditions, hconditions, hwell, hwell.judged⟩

/-- DISTINCT of `job`, then a count of the distinct values of `user`, which wins, and `host`
under another name, from the logs up to the end of a day that are of some hosts. -/
def userCounts : Select where
  duplicates := .dropped
  items := [.column (.ident ⟨"job", none⟩),
    .column (.call [⟨"COUNT", none⟩] "" (.list (some .distinct) "") [.ident ⟨"user", none⟩] ""),
    .aliased (.ident ⟨"host", none⟩) ⟨"machine", none⟩]
  tables := [⟨.table [⟨"logs", none⟩], false⟩, ⟨.table [⟨"logs", none⟩], false⟩]
  condition := some (.binary .conjunction
    (.binary (.comparison .le) (.ident ⟨"Date", none⟩) (.literal (.text "2020-01-02")))
    (.like true false false (.ident ⟨"host", none⟩) (.literal (.text "db%")) none))
  grouped := false
  having := false

def userCountsPlan : Plan where
  sources := ["logs"]
  fields := [.on ⟨"host"⟩ .ilike (.pattern ⟨"db%", true⟩), .present ⟨"job"⟩, .present ⟨"user"⟩,
    ⟨⟨"host"⟩, "machine", .present, .none⟩]
  dates := [⟨"2020-01-02", ⟨1578009599, 0⟩, .compare .le, true, .last⟩]
  projections := [⟨⟨"host"⟩, "machine"⟩]
  aggregation := some ⟨"user"⟩
  kind := .countDistinct

theorem ofSelect_userCounts : ofSelect (Marked.ofChars []) userCounts = .ok userCountsPlan := by
  decide +kernel

theorem userCounts_wellFormed : ∃ conditions : Conditions,
    userCounts.condition.elim (.ok .empty) (Conditions.ofExpr (Marked.ofChars [])) = .ok conditions ∧
      userCountsPlan.WellFormed conditions ∧ userCountsPlan.Judged :=
  ofSelect_wellFormed ofSelect_userCounts

end Plan

end LogQuery
