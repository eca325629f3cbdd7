import LogQuery.Compile.Condition
import LogQuery.Proofs.Predicate.Escape

/-!
# What the conditions of a query mean

`Holds` says, by recursion on the tree of WHERE, when a record satisfies it. It knows
nothing of the lists of conditions that a query is compiled to. The compiled lists
hold of a record exactly when the tree with plain LIKEs does, so no leaf gets lost and the
order and nesting of a conjunction do not matter. But a LIKE is compiled without its ANY
and its ESCAPE, so the lists mean what the tree means only as far as no ESCAPE gives a
character that its pattern has.
-/

namespace LogQuery.Compile

open LogQuery.Query LogQuery.Sql LogQuery.Predicate LogQuery.Record LogQuery.Json LogQuery.Calendar
open LogQuery.Decimal

section Meaning

/-- How a value stands to a literal. A literal that is a number has an order with
numbers only; any other one is the text of a value or is not. -/
def Relates (c : Comparison) (text : String) (v : Value) : Prop :=
  match int64? text.toList, double? text.toList with
  | some n, _ => ∃ m, v = .number m ∧ c.holds (compareToInt m n) = true
  | none, some x =>
    ∃ m o, v = .number m ∧ Extended.orderOf? m.toDouble (.finite x) = some o ∧ c.holds o = true
  | none, none => (c = .eq ∧ render v = text) ∨ (c = .ne ∧ render v ≠ text)

/-- Whether a value is in a list: as a number if all elements are integers, and else
by its text. -/
def IsAmong (texts : List String) (v : Value) : Prop :=
  match texts.mapM fun s => int64? s.toList with
  | some ns => ∃ m, v = .number m ∧ ∃ n ∈ ns, compareToInt m n = .eq
  | none => render v ∈ texts

/-- Whether the text of a value is what a pattern asks for, with its ESCAPE. -/
def IsLike (ignoreCase : Bool) (text : String) (escape : Option String) (v : Value) : Prop :=
  Pattern.Fits ignoreCase escape text.toList (render v).toList

/-- How an instant stands to a literal: by its day if the literal is a date. -/
def DateRelates (c : Comparison) (text : String) (t : Instant) : Prop :=
  match day? (Text.trimChars text.toList) with
  | some d => c.holds (compare t.day d) = true
  | none =>
    ∃ bound, timestamp? (String.ofList (Text.trimChars text.toList)) = some bound ∧
      c.holds (compare t bound) = true

variable (q : Marked) (record : Value)

/-- A comparison of a field holds if some value at its path satisfies it. One of the
date is about the time of the record, and holds if there is none. -/
def Compares (c : Comparison) (l r : Expr) : Prop :=
  ∃ p text, field q l = .ok p ∧ literal q r = .ok text ∧
    if isDate p = true then ∀ t, recordInstant? record = some t → DateRelates c text t
    else ∃ v ∈ p.values record, Relates c text v

/-- What WHERE means. ANY of a single pattern asks for that one. A tree that is no
conjunction of conditions holds of nothing. -/
def Holds : Expr → Prop
  | .nested e => Holds e
  | .binary .conjunction l r => Holds l ∧ Holds r
  | .binary (.comparison c) l r => Compares q record c l r
  | .between false e low high => Compares q record .ge e low ∧ Compares q record .le e high
  | .inList false e list =>
    ∃ p texts, field q e = .ok p ∧ list.mapM (literal q) = .ok texts ∧
      ∃ v ∈ p.values record, IsAmong texts v
  | .like ignoreCase false _ e pattern escape =>
    ∃ p text, field q e = .ok p ∧ literal q pattern = .ok text ∧
      ∃ v ∈ p.values record, IsLike ignoreCase text escape v
  | .isNull true e => ∃ p, field q e = .ok p ∧ (isDate p = true ∨ p.values record ≠ [])
  | _ => False

/-- A tree without ANY and ESCAPE in the LIKEs that it is a conjunction of. -/
def plainLikes : Expr → Expr
  | .nested e => .nested (plainLikes e)
  | .binary .conjunction l r => .binary .conjunction (plainLikes l) (plainLikes r)
  | .like ignoreCase false _ e pattern _ => .like ignoreCase false false e pattern none
  | e => e

/-- Whether no ESCAPE of those LIKEs gives a character that its pattern has. -/
def EscapesIdle : Expr → Prop
  | .nested e => EscapesIdle e
  | .binary .conjunction l r => EscapesIdle l ∧ EscapesIdle r
  | .like _ false _ _ pattern escape =>
    ∀ text, literal q pattern = .ok text → Pattern.Idle escape text.toList
  | _ => True

variable {q record}

theorem isLike_none {ignoreCase : Bool} {text : String} {v : Value} {pattern : Pattern}
    (h : Pattern.ofSource? text ignoreCase = some pattern) :
    IsLike ignoreCase text none v ↔ pattern.isMatch (render v) = true := by
  obtain rfl := Pattern.eq_of_ofSource? h
  rw [IsLike, Pattern.idle_none.fits_iff, Pattern.isMatch_iff]

/-- With idle ESCAPEs a tree means the same as without them. -/
theorem holds_plainLikes {e : Expr} (h : EscapesIdle q e) :
    Holds q record (plainLikes e) ↔ Holds q record e := by
  fun_induction plainLikes e with
  | case1 e ih => exact ih h
  | case2 l r ihl ihr => exact and_congr (ihl h.1) (ihr h.2)
  | case3 ignoreCase any e pattern escape =>
    refine exists_congr fun p => exists_congr fun text => and_congr_right fun _ => ?_
    refine and_congr_right fun ht => exists_congr fun v => and_congr_right fun _ => ?_
    exact Pattern.idle_none.fits_iff.trans (h text ht).fits_iff.symm
  | case4 => exact Iff.rfl

end Meaning

/-- What a computation that succeeds has done first. -/
theorem bind_eq_ok {ε α β : Type} {x : Except ε α} {f : α → Except ε β} {b : β} :
    x >>= f = .ok b ↔ ∃ a, x = .ok a ∧ f a = .ok b := by
  cases x <;> simp [bind, Except.bind]

theorem pure_eq_ok {ε α : Type} {a b : α} : (pure a : Except ε α) = .ok b ↔ a = b := by
  simp [pure, Except.pure]

namespace Conditions

/-- Whether all conditions hold of a record. -/
def Hold (cs : Conditions) (record : Value) : Prop :=
  (∀ c ∈ cs.fields, c.holds record = true) ∧ datesHold cs.dates record = true

variable {q : Marked} {record : Value} {cs : Conditions} {p : Path} {text : String}

theorem datesHold_iff {dates : List DateCondition} : datesHold dates record = true ↔
    ∀ t, recordInstant? record = some t → ∀ c ∈ dates, c.acceptsInstant t = true := by
  unfold datesHold allAcceptInstant
  cases recordInstant? record with
  | none => simp
  | some t => cases dates <;> simp

theorem hold_append (a b : Conditions) : (a ++ b).Hold record ↔ a.Hold record ∧ b.Hold record := by
  change (∀ c ∈ a.fields ++ b.fields, _) ∧ datesHold (a.dates ++ b.dates) record = true ↔ _
  simp only [Hold, datesHold_iff, List.forall_mem_append]
  constructor
  · rintro ⟨⟨ha, hb⟩, hd⟩
    exact ⟨⟨ha, fun t ht => (hd t ht).1⟩, hb, fun t ht => (hd t ht).2⟩
  · rintro ⟨⟨ha, hda⟩, hb, hdb⟩
    exact ⟨⟨ha, hb⟩, fun t ht => ⟨hda t ht, hdb t ht⟩⟩

theorem hold_ofField (c : FieldCondition) :
    (ofField c).Hold record ↔ ∃ v ∈ c.path.values record, c.accepts v = true := by
  simp [Hold, ofField, datesHold, FieldCondition.holds]

/-- That a field is there, under whatever name it is shown. -/
theorem holds_present (label : String) :
    FieldCondition.holds { FieldCondition.present p with label := label } record = true ↔
      p.values record ≠ [] := by
  simp only [FieldCondition.holds, List.any_eq_true]
  constructor
  · rintro ⟨v, hv, -⟩
    exact List.ne_nil_of_mem hv
  · intro hne
    obtain ⟨v, hv⟩ := List.exists_mem_of_ne_nil _ hne
    exact ⟨v, hv, rfl⟩

theorem hold_present : (present p).Hold record ↔ isDate p = true ∨ p.values record ≠ [] := by
  unfold present
  split
  · next hd => simp [Hold, empty, datesHold, hd]
  · next hd =>
    rw [or_iff_right hd, ← holds_present (FieldCondition.present p).label]
    simp [Hold, ofField, datesHold]

/-- A date compares by days, and what else can be read by instants. -/
theorem acceptsInstant_parse {c : Comparison} {d : DateCondition}
    (h : DateCondition.parse text (.compare c) = .ok d) (t : Instant) :
    d.acceptsInstant t = true ↔ DateRelates c text t := by
  unfold DateCondition.parse at h
  unfold DateRelates
  simp only at h
  cases hday : day? (Text.trimChars text.toList) with
  | some day =>
    rw [hday] at h
    cases h
    have hday : (day.at (if Operator.compare c == .compare .le then DateCondition.endOfDay else 0)
        0).day = day := day_at (by split <;> decide)
    simp only [DateCondition.acceptsInstant, DateCondition.comparesDay, DateCondition.day, hday,
      if_true]
  | none =>
    rw [hday] at h
    cases hbound : timestamp? (String.ofList (Text.trimChars text.toList)) with
    | none => simp [hbound] at h
    | some bound =>
      simp only [hbound, Except.ok.injEq] at h
      subst h
      simp [DateCondition.acceptsInstant]

theorem hold_ofDate {c : Comparison} (h : ofDate (.compare c) text = .ok cs) :
    cs.Hold record ↔ ∀ t, recordInstant? record = some t → DateRelates c text t := by
  unfold ofDate at h
  cases hp : DateCondition.parse text (.compare c) with
  | error e => simp [hp] at h
  | ok d =>
    simp only [hp, Except.ok.injEq] at h
    subst h
    simp [Hold, datesHold_iff, acceptsInstant_parse hp]

/-- A typed literal relates to a value as its text does. -/
theorem accepts_typedOperand {c : Comparison} {operand : Operand}
    (h : typedOperand p c text = .ok operand) (v : Value) :
    operand.accepts (.compare c) v = true ↔ Relates c text v := by
  unfold typedOperand at h
  unfold Relates
  cases hi : int64? text.toList with
  | some n =>
    simp only [hi, Except.ok.injEq] at h
    subst h
    cases v <;> simp [Operand.accepts, Operator.holds]
  | none =>
    cases hx : double? text.toList with
    | some x =>
      simp only [hi, hx, Except.ok.injEq] at h
      subst h
      cases v <;> simp [Operand.accepts, Operator.holds, Option.any_eq_true]
    | none =>
      simp only [hi, hx] at h
      split at h
      · next hc =>
        cases h
        cases c <;> simp_all [Operand.accepts]
      · cases h

theorem hold_compare {c : Comparison} (h : compare p c text = .ok cs) :
    cs.Hold record ↔
      if isDate p = true then ∀ t, recordInstant? record = some t → DateRelates c text t
      else ∃ v ∈ p.values record, Relates c text v := by
  unfold compare at h
  split at h
  · next hd =>
    rw [if_pos hd]
    exact hold_ofDate h
  · next hd =>
    rw [if_neg hd]
    obtain ⟨operand, ho, hcs⟩ := bind_eq_ok.mp h
    cases pure_eq_ok.mp hcs
    rw [hold_ofField]
    exact exists_congr fun v => and_congr_right fun _ => accepts_typedOperand ho v

theorem hold_like {ignoreCase : Bool} (h : like p ignoreCase text = .ok cs) :
    cs.Hold record ↔ ∃ v ∈ p.values record, IsLike ignoreCase text none v := by
  unfold like at h
  cases hd : isDate p with
  | true =>
    rw [hd] at h
    cases ignoreCase <;> cases h
  | false =>
    cases hp : Pattern.ofSource? text ignoreCase with
    | none => simp [hd, hp] at h
    | some pattern =>
      simp only [hd, hp, Bool.false_eq_true, if_false, Except.ok.injEq] at h
      subst h
      rw [hold_ofField]
      refine exists_congr fun v => and_congr_right fun _ => ?_
      rw [isLike_none hp]
      cases ignoreCase <;> simp [FieldCondition.accepts, FieldCondition.on, Operand.accepts]

theorem hold_oneOf {texts : List String} (h : oneOf p texts = .ok cs) :
    cs.Hold record ↔ ∃ v ∈ p.values record, IsAmong texts v := by
  unfold oneOf at h
  split at h
  · cases h
  · cases h
    rw [hold_ofField]
    refine exists_congr fun v => and_congr_right fun _ => ?_
    unfold IsAmong setOperand
    cases texts.mapM fun s => int64? s.toList with
    | some ns => cases v <;> simp [FieldCondition.accepts, FieldCondition.on, Operand.accepts]
    | none => simp [FieldCondition.accepts, FieldCondition.on, Operand.accepts]

theorem hold_comparison {c : Comparison} {l r : Expr} (hp : field q l = .ok p)
    (ht : literal q r = .ok text) (h : compare p c text = .ok cs) :
    cs.Hold record ↔ Compares q record c l r := by
  rw [hold_compare h, Compares]
  constructor
  · exact fun hc => ⟨p, text, hp, ht, hc⟩
  · rintro ⟨p', text', hp', ht', hc⟩
    cases hp.symm.trans hp'
    cases ht.symm.trans ht'
    exact hc

/-- The compiled conditions hold exactly when the tree with plain LIKEs does. -/
theorem hold_iff {e : Expr} (h : ofExpr q e = .ok cs) :
    cs.Hold record ↔ Holds q record (plainLikes e) := by
  fun_induction ofExpr q e generalizing cs with
  | case1 e ih => exact ih h
  | case2 l r ihl ihr =>
    obtain ⟨a, ha, h⟩ := bind_eq_ok.mp h
    obtain ⟨b, hb, h⟩ := bind_eq_ok.mp h
    cases pure_eq_ok.mp h
    rw [hold_append, ihl ha, ihr hb]
    rfl
  | case3 c l r =>
    obtain ⟨p, hp, h⟩ := bind_eq_ok.mp h
    obtain ⟨text, ht, h⟩ := bind_eq_ok.mp h
    exact hold_comparison hp ht h
  | case4 e low high =>
    obtain ⟨p, hp, h⟩ := bind_eq_ok.mp h
    obtain ⟨lowText, hlow, h⟩ := bind_eq_ok.mp h
    obtain ⟨highText, hhigh, h⟩ := bind_eq_ok.mp h
    obtain ⟨a, ha, h⟩ := bind_eq_ok.mp h
    obtain ⟨b, hb, h⟩ := bind_eq_ok.mp h
    cases pure_eq_ok.mp h
    rw [hold_append, hold_comparison hp hlow ha, hold_comparison hp hhigh hb]
    rfl
  | case5 e list =>
    obtain ⟨p, hp, h⟩ := bind_eq_ok.mp h
    obtain ⟨texts, ht, h⟩ := bind_eq_ok.mp h
    simp [hold_oneOf h, plainLikes, Holds, hp, ht]
  | case6 ignoreCase any e pattern escape =>
    obtain ⟨p, hp, h⟩ := bind_eq_ok.mp h
    obtain ⟨text, ht, h⟩ := bind_eq_ok.mp h
    simp [hold_like h, plainLikes, Holds, hp, ht]
  | case7 e =>
    obtain ⟨p, hp, h⟩ := bind_eq_ok.mp h
    cases pure_eq_ok.mp h
    simp [hold_present, plainLikes, Holds, hp]
  | case8 e => cases h

section Conjuncts

/-- The conditions that a tree is a conjunction of, without parentheses around them. -/
def conjuncts : Expr → List Expr
  | .nested e => conjuncts e
  | .binary .conjunction l r => conjuncts l ++ conjuncts r
  | e => [e]

/-- A conjunction means that all its conditions hold. -/
theorem holds_iff_conjuncts (e : Expr) :
    Holds q record e ↔ ∀ l ∈ conjuncts e, Holds q record l := by
  fun_induction conjuncts e with
  | case1 e ih => exact ih
  | case2 l r ihl ihr =>
    rw [List.forall_mem_append, ← ihl, ← ihr]
    rfl
  | case3 e => rw [List.forall_mem_singleton]

/-- A conjunction compiles when all its conditions do. -/
theorem ofExpr_isOk_iff (e : Expr) :
    (∃ cs, ofExpr q e = .ok cs) ↔ ∀ l ∈ conjuncts e, ∃ cs, ofExpr q l = .ok cs := by
  fun_induction conjuncts e with
  | case1 e ih => exact ih
  | case2 l r ihl ihr =>
    rw [List.forall_mem_append, ← ihl, ← ihr, ofExpr]
    simp only [bind_eq_ok, pure_eq_ok]
    constructor
    · rintro ⟨cs, a, ha, b, hb, -⟩
      exact ⟨⟨a, ha⟩, b, hb⟩
    · rintro ⟨⟨a, ha⟩, b, hb⟩
      exact ⟨a ++ b, a, ha, b, hb, rfl⟩
  | case3 e => rw [List.forall_mem_singleton]

theorem conjuncts_plainLikes (e : Expr) :
    conjuncts (plainLikes e) = (conjuncts e).map plainLikes := by
  fun_induction plainLikes e with
  | case1 e ih => exact ih
  | case2 l r ihl ihr => rw [conjuncts, conjuncts, ihl, ihr, List.map_append]
  | case3 => rfl
  | case4 e notNested notConjunction notLike =>
    have hconjuncts : conjuncts e = [e] := by rw [conjuncts] <;> assumption
    have hplain : plainLikes e = e := by rw [plainLikes] <;> assumption
    rw [hconjuncts, List.map_singleton, hplain]

/-- A LIKE is compiled without its ANY and its ESCAPE. -/
theorem ofExpr_plainLikes (e : Expr) : ofExpr q (plainLikes e) = ofExpr q e := by
  fun_induction plainLikes e with
  | case1 e ih => exact ih
  | case2 l r ihl ihr => rw [ofExpr, ofExpr, ihl, ihr]
  | case3 => rfl
  | case4 => rfl

theorem leaf_of_mem_conjuncts {e l : Expr} (h : l ∈ conjuncts e) :
    (∀ inner, l ≠ .nested inner) ∧ ∀ a b, l ≠ .binary .conjunction a b := by
  fun_induction conjuncts e with
  | case1 e ih => exact ih h
  | case2 a b iha ihb => exact (List.mem_append.mp h).elim iha ihb
  | case3 e notNested notConjunction =>
    cases List.mem_singleton.mp h
    exact ⟨notNested, notConjunction⟩

/-- A record that has one value at a path. -/
def recordAt (segments : List String) (v : Value) : Value :=
  segments.foldr (fun s inner => .object [(s, inner)]) v

theorem valuesAlong_recordAt (segments : List String) (v : Value) :
    valuesAlong segments (recordAt segments v) = [v] := by
  induction segments with
  | nil => rfl
  | cons s segments ih =>
    change valuesAlong (s :: segments) (.object [(s, recordAt segments v)]) = [v]
    rw [valuesAlong]
    split
    · simpa using ih
    · simpa [member?] using ih

theorem holds_like_recordAt {ignoreCase any : Bool} {e pattern : Expr} {escape : Option String}
    (hp : field q e = .ok p) (ht : literal q pattern = .ok text) (chars : List Char) :
    Holds q (recordAt p.segments (.string (String.ofList chars)))
      (.like ignoreCase false any e pattern escape) ↔
        Pattern.Fits ignoreCase escape text.toList chars := by
  constructor
  · rintro ⟨p', text', hp', ht', v, hv, hlike⟩
    obtain rfl : p = p' := Except.ok.inj (hp.symm.trans hp')
    obtain rfl : text = text' := Except.ok.inj (ht.symm.trans ht')
    rw [Path.values, valuesAlong_recordAt, List.mem_singleton] at hv
    rwa [hv, IsLike, render, String.toList_ofList] at hlike
  · intro hfits
    refine ⟨p, text, hp, ht, .string (String.ofList chars), ?_, ?_⟩
    · rw [Path.values, valuesAlong_recordAt]
      exact List.mem_singleton_self _
    · rwa [IsLike, render, String.toList_ofList]

/-- A single condition means what is compiled of it exactly if its ESCAPE is idle. -/
theorem holds_plainLikes_iff {l : Expr} (h : ∃ cs, ofExpr q l = .ok cs)
    (notNested : ∀ inner, l ≠ .nested inner) (notConjunction : ∀ a b, l ≠ .binary .conjunction a b) :
    (∀ record, Holds q record (plainLikes l) ↔ Holds q record l) ↔ EscapesIdle q l := by
  refine ⟨fun hsame => ?_, fun hidle _ => holds_plainLikes hidle⟩
  obtain ⟨cs, h⟩ := h
  revert hsame h
  fun_cases plainLikes l with
  | case1 e => exact absurd rfl (notNested e)
  | case2 a b => exact absurd rfl (notConjunction a b)
  | case3 ignoreCase any e pattern escape =>
    intro hsame h text ht
    obtain ⟨p, hp, -⟩ := bind_eq_ok.mp h
    apply (Pattern.fits_iff_fallsInto_iff ignoreCase escape text.toList).mp
    intro chars
    have hrecord := hsame (recordAt p.segments (.string (String.ofList chars)))
    rw [holds_like_recordAt hp ht, holds_like_recordAt hp ht, Pattern.idle_none.fits_iff] at hrecord
    exact hrecord.symm
  | case4 _ _ _ notLike =>
    intro _ _
    rw [EscapesIdle]
    · trivial
    all_goals assumption

end Conjuncts

end Conditions

end LogQuery.Compile
