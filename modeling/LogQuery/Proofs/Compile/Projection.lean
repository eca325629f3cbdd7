import LogQuery.Proofs.Compile.WellFormed
import LogQuery.Proofs.Record.Projected

/-!
# Outputs of columns

A column that puts out a field also asks that the field be there. So a record that matches a
compiled query has a value for every projection, and its output leaves out none of the
columns, in the order in which the query names them.
-/

namespace LogQuery

open LogQuery.Compile LogQuery.Query LogQuery.Sql LogQuery.Predicate LogQuery.Record LogQuery.Json

namespace Compile.Columns

variable {q : Marked} {cs cs' : Columns} {distinct : Bool}

/-- The projection that an expression asks for under some name, if it names a field. -/
def projection? (q : Marked) (label : Option String) : Expr → Option Projection
  | .call _ _ _ _ _ => none
  | e => (field q e).toOption.map fun p => ⟨p, label.getD p.leaf⟩

/-- The projection that a column asks for, under its own name or that of its field. -/
def named? (q : Marked) : SelectItem → Option Projection
  | .column e => projection? q none e
  | .aliased e i => projection? q (some (q.restore i.value)) e
  | .star | .other _ => none

/-- Columns add projections that they name. Only for distinct answers they leave some out,
of which the values are gathered instead. -/
def Projects (distinct : Bool) (cs cs' : Columns) (named : List Projection) : Prop :=
  ∃ new, cs'.projections = cs.projections ++ new ∧ new.Sublist named ∧
    (distinct = false → new = named)

theorem projects_nil (h : cs'.projections = cs.projections) : Projects distinct cs cs' [] :=
  ⟨[], by rw [h, List.append_nil], List.nil_sublist _, fun _ => rfl⟩

theorem Projects.trans {cs'' : Columns} {named named' : List Projection}
    (h : Projects distinct cs cs' named) (h' : Projects distinct cs' cs'' named') :
    Projects distinct cs cs'' (named ++ named') := by
  obtain ⟨new, hcs, hsub, hall⟩ := h
  obtain ⟨new', hcs', hsub', hall'⟩ := h'
  refine ⟨new ++ new', by rw [hcs', hcs, List.append_assoc], hsub.append hsub', fun hd => ?_⟩
  rw [hall hd, hall' hd]

theorem addCall_projections {name : List Ident} {form : CallForm} {arguments : List Expr}
    {written : String} (h : addCall q cs name form arguments written = .ok cs') :
    cs'.projections = cs.projections := by
  rcases addCall_eq_ok h with ⟨-, rfl⟩ | ⟨_, _, _, -, -, rfl⟩ <;> rfl

theorem projects_addField (distinct : Bool) (cs : Columns) (p : Path) (label : Option String) :
    Projects distinct cs (cs.addField distinct p label) [⟨p, label.getD p.leaf⟩] := by
  unfold addField
  split
  next hd =>
    refine ⟨[], (List.append_nil _).symm, List.nil_sublist _, fun hkept => ?_⟩
    rw [hkept] at hd
    cases hd
  next => exact ⟨_, rfl, List.Sublist.refl _, fun _ => rfl⟩

theorem projects_addExpr {e : Expr} {label : Option String}
    (h : addExpr q distinct cs e label = .ok cs') :
    Projects distinct cs cs' (projection? q label e).toList := by
  unfold addExpr at h
  split at h
  · exact projects_nil (addCall_projections h)
  next hcall =>
    obtain ⟨p, hp, h⟩ := bind_eq_ok.mp h
    cases pure_eq_ok.mp h
    have hnamed : projection? q label e = some ⟨p, label.getD p.leaf⟩ := by
      rw [projection?, hp]
      · rfl
      · exact hcall
    rw [hnamed]
    exact projects_addField distinct cs p label

theorem projects_addItem {item : SelectItem} (h : addItem q distinct cs item = .ok cs') :
    Projects distinct cs cs' (named? q item).toList := by
  cases item with
  | star =>
    cases h
    exact projects_nil rfl
  | column e => exact projects_addExpr h
  | aliased e label => exact projects_addExpr h
  | other written => cases h

theorem projects_foldlM {items : List SelectItem}
    (h : items.foldlM (addItem q distinct) cs = .ok cs') :
    Projects distinct cs cs' (items.filterMap (named? q)) := by
  induction items generalizing cs with
  | nil =>
    cases pure_eq_ok.mp h
    exact projects_nil rfl
  | cons item items ih =>
    obtain ⟨middle, hitem, hrest⟩ := bind_eq_ok.mp h
    have hall := (projects_addItem hitem).trans (ih hrest)
    rw [List.filterMap_cons]
    cases hnamed : named? q item with
    | none => rwa [hnamed] at hall
    | some p => rwa [hnamed] at hall

end Compile.Columns

namespace Plan

variable {q : Marked} {s : Select} {plan : Plan} {record : Value}

/-- Projections are named by columns, in their order. -/
theorem projections_named (h : ofSelect q s = .ok plan) :
    plan.projections.Sublist (s.items.filterMap (Columns.named? q)) ∧
      (s.duplicates = .kept → plan.projections = s.items.filterMap (Columns.named? q)) := by
  obtain ⟨-, -, conditions, distinct, columns, sources, -, hdistinct, hcolumns, -, rfl⟩ :=
    ofSelect_eq_ok.mp h
  obtain ⟨new, hnew, hsub, hall⟩ := Columns.projects_foldlM hcolumns
  obtain rfl : columns.projections = new := hnew
  refine ⟨hsub, fun hkept => hall ?_⟩
  rw [hkept] at hdistinct
  cases hdistinct
  rfl

/-- A record that matches has a value for every projection. -/
theorem exists_value?_of_accepts (h : ofSelect q s = .ok plan)
    (haccepts : plan.accepts record = true) :
    ∀ p ∈ plan.projections, ∃ v, p.path.value? record = some v := by
  obtain ⟨-, -, conditions, distinct, columns, sources, -, -, hcolumns, -, rfl⟩ :=
    ofSelect_eq_ok.mp h
  intro p hp
  obtain ⟨c, hc, hpath, -⟩ := (Columns.guarded_ofItems hcolumns).projections p hp
  have hholds : c.holds record = true :=
    List.all_eq_true.mp (Bool.and_eq_true_iff.mp haccepts).1 c (List.mem_append_right _ hc)
  obtain ⟨v, hv, -⟩ := List.any_eq_true.mp hholds
  rw [hpath] at hv
  exact Option.isSome_iff_exists.mp (List.isSome_head?.mpr (List.ne_nil_of_mem hv))

/-- The output of a record that matches a compiled query with projections is an object with
one member for each, in the order in which the query names them: the name of the column with
the first value at its path. It is JSON, and is read as the object in which each name has the
value of the last column of this name, up to its doubles. -/
theorem output_projected (hplan : ofSelect q s = .ok plan) (hne : plan.projections ≠ [])
    {line : Text.Bytes} (hmatch : plan.matchLine? line = some record) :
    plan.projections.Sublist (s.items.filterMap (Columns.named? q)) ∧
    (s.duplicates = .kept → plan.projections = s.items.filterMap (Columns.named? q)) ∧
    ∃ members, Projected record plan.projections members (outputChars plan line record) := by
  obtain ⟨hsub, hkept⟩ := projections_named hplan
  obtain ⟨hline, haccepts⟩ := Option.filter_eq_some_iff.mp hmatch
  obtain ⟨text, -, htext⟩ := exists_text_of_ofLine? hline
  obtain ⟨hwell, hdeep⟩ := wellFormed_of_parse? htext
  exact ⟨hsub, hkept, exists_projected hwell hdeep hne (exists_value?_of_accepts hplan haccepts)⟩

/-- `host` and the first `n` of any item under one name with a quotation mark in it. -/
def sharedName : Select where
  duplicates := .kept
  items := [.aliased (.ident ⟨"host", none⟩) ⟨"a\"b", none⟩,
    .aliased (.ident ⟨"items.*.n", none⟩) ⟨"a\"b", none⟩]
  tables := [⟨.table [⟨"logs", none⟩], false⟩]
  condition := none
  grouped := false
  having := false

def sharedNamePlan : Plan where
  sources := ["logs"]
  fields := [⟨⟨"host"⟩, "a\"b", .present, .none⟩, ⟨⟨"items.*.n"⟩, "a\"b", .present, .none⟩]
  dates := []
  projections := [⟨⟨"host"⟩, "a\"b"⟩, ⟨⟨"items.*.n"⟩, "a\"b"⟩]
  aggregation := none
  kind := .search

theorem ofSelect_sharedName : ofSelect (Marked.ofChars []) sharedName = .ok sharedNamePlan :=
  rfl

/-- A line with three items, of which the first has no `n`. -/
def sharedNameLine : Text.Bytes :=
  Text.encode "\x7b\"host\":\"h\",\"items\":[\x7b\x7d,\x7b\"n\":[1]\x7d,\x7b\"n\":2\x7d]\x7d"

theorem sharedName_projected : ∃ record members,
    sharedNamePlan.matchLine? sharedNameLine = some record ∧
      Projected record sharedNamePlan.projections members
        "\x7b\"a\\\"b\":\"h\",\"a\\\"b\":[1]\x7d".toList := by
  have hout : (sharedNamePlan.matchLine? sharedNameLine).map
      (outputChars sharedNamePlan sharedNameLine) =
        some "\x7b\"a\\\"b\":\"h\",\"a\\\"b\":[1]\x7d".toList := by decide +kernel
  obtain ⟨record, hmatch, hrecord⟩ := Option.map_eq_some_iff.mp hout
  obtain ⟨-, -, members, hprojected⟩ := output_projected ofSelect_sharedName (by decide) hmatch
  exact ⟨record, members, hmatch, hrecord ▸ hprojected⟩

end Plan

end LogQuery
