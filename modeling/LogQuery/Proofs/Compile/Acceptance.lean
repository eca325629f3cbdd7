import LogQuery.Proofs.Compile.Meaning

/-!
# Which conditions compile

`Names` and `Spells` say by rules on expressions what a field and a literal are, and
`Admissible` which conditions on a field there are. A WHERE compiles exactly when all
its conjuncts are such conditions, but that its LIKEs may also have an ANY or an ESCAPE,
of which nothing is compiled. No other form may stand anywhere in the tree: any other one
is an error, however deep it stands.
-/

namespace LogQuery.Compile

open LogQuery.Query LogQuery.Sql LogQuery.Predicate LogQuery.Record LogQuery.Calendar
open LogQuery.Decimal

section Rules

/-- A field is a name or a dotted name, perhaps in parentheses. Its path is made of
the words of the query. -/
inductive Names (q : Marked) : Expr → Path → Prop
  | ident (i : Ident) : Names q (.ident i) ⟨q.restore i.value⟩
  | path (parts : List Ident) :
    Names q (.path parts) ⟨".".intercalate (parts.map fun i => q.restore i.value)⟩
  | nested {e : Expr} {p : Path} : Names q e p → Names q (.nested e) p

/-- A literal is a number, perhaps with a minus, a string, a truth value or a name in
quotes, perhaps in parentheses. -/
inductive Spells : Expr → String → Prop
  | number (n : String) (long : Bool) : Spells (.literal (.number n long)) n
  | negated (n : String) (long : Bool) :
    Spells (.unary .minus (.literal (.number n long))) ("-" ++ n)
  | text (s : String) : Spells (.literal (.text s)) s
  | boolean (b : Bool) : Spells (.literal (.boolean b)) (if b then "true" else "false")
  | quoted (s : String) (quote : Char) : Spells (.ident ⟨s, some quote⟩) s
  | nested {e : Expr} {s : String} : Spells e s → Spells (.nested e) s

/-- Whether a text, without white space around it, is a day or a time. -/
def IsDateText (text : String) : Prop :=
  (day? (Text.trimChars text.toList)).isSome ∨
    (timestamp? (String.ofList (Text.trimChars text.toList))).isSome

/-- Whether a text is an integer of 64 bits or a number that is a finite double. -/
def IsNumberText (text : String) : Prop :=
  (int64? text.toList).isSome ∨ (double? text.toList).isSome

/-- What a field may be compared with: the date with dates, and any other field with
numbers, or with any text if no order is asked for. -/
def Comparable (p : Path) (c : Comparison) (text : String) : Prop :=
  if isDate p = true then IsDateText text else c = .eq ∨ c = .ne ∨ IsNumberText text

/-- The conditions on a field. -/
inductive Admissible (q : Marked) : Expr → Prop
  | comparison {c : Comparison} {l r : Expr} {p : Path} {text : String} (field : Names q l p)
    (operand : Spells r text) (comparable : Comparable p c text) :
    Admissible q (.binary (.comparison c) l r)
  | between {e low high : Expr} {p : Path} {lowText highText : String} (field : Names q e p)
    (lower : Spells low lowText) (upper : Spells high highText)
    (above : Comparable p .ge lowText) (below : Comparable p .le highText) :
    Admissible q (.between false e low high)
  | oneOf {e : Expr} {list : List Expr} {p : Path} (field : Names q e p) (other : isDate p = false)
    (elements : ∀ l ∈ list, ∃ text, Spells l text) : Admissible q (.inList false e list)
  | like {ignoreCase : Bool} {e pattern : Expr} {p : Path} {text : String} (field : Names q e p)
    (other : isDate p = false) (operand : Spells pattern text)
    (compiles : (Pattern.ofSource? text ignoreCase).isSome) :
    Admissible q (.like ignoreCase false false e pattern none)
  | present {e : Expr} {p : Path} (field : Names q e p) : Admissible q (.isNull true e)

/-- The expressions that an expression is made of. -/
def operands : Expr → List Expr
  | .nested e | .unary _ e | .isNull _ e | .named _ _ e => [e]
  | .binary _ l r => [l, r]
  | .between _ e low high => [e, low, high]
  | .inList _ e list => e :: list
  | .like _ _ _ e pattern _ => [e, pattern]
  | .call _ _ _ arguments _ => arguments
  | .ident _ | .path _ | .literal _ | .star | .qualifiedStar _ | .subquery _ | .other _ => []

/-- Whether an expression stands somewhere in a tree. -/
inductive Occurs (part : Expr) : Expr → Prop
  | here : Occurs part part
  | inside {e o : Expr} (operand : o ∈ operands e) (below : Occurs part o) : Occurs part e

/-- The forms of expressions that conditions are made of. -/
inductive Permitted : Expr → Prop
  | nested (e : Expr) : Permitted (.nested e)
  | conjunction (l r : Expr) : Permitted (.binary .conjunction l r)
  | comparison (c : Comparison) (l r : Expr) : Permitted (.binary (.comparison c) l r)
  | between (e low high : Expr) : Permitted (.between false e low high)
  | inList (e : Expr) (list : List Expr) : Permitted (.inList false e list)
  | like (ignoreCase : Bool) (e pattern : Expr) :
    Permitted (.like ignoreCase false false e pattern none)
  | present (e : Expr) : Permitted (.isNull true e)
  | ident (i : Ident) : Permitted (.ident i)
  | path (parts : List Ident) : Permitted (.path parts)
  | number (n : String) (long : Bool) : Permitted (.literal (.number n long))
  | negated (n : String) (long : Bool) :
    Permitted (.unary .minus (.literal (.number n long)))
  | text (s : String) : Permitted (.literal (.text s))
  | boolean (b : Bool) : Permitted (.literal (.boolean b))

end Rules

section Leaves

variable {q : Marked} {e : Expr} {p : Path} {text : String}

theorem field_eq_ok : field q e = .ok p ↔ Names q e p := by
  constructor
  · intro h
    fun_induction field q e with
    | case1 i => cases h; exact .ident i
    | case2 parts => cases h; exact .path parts
    | case3 e ih => exact .nested (ih h)
    | case4 => cases h
  · intro h
    induction h with
    | ident i => rfl
    | path parts => rfl
    | nested _ ih => exact ih

theorem literal_eq_ok : literal q e = .ok text ↔ Spells e text := by
  constructor
  · intro h
    fun_induction literal q e with
    | case1 => cases h; exact .number _ _
    | case2 => cases h; exact .text _
    | case3 => cases h; exact .boolean _
    | case4 => cases h; exact .quoted _ _
    | case5 => cases h; exact .negated _ _
    | case6 e ih => exact .nested (ih h)
    | case7 => cases h
  · intro h
    induction h with
    | nested _ ih => exact ih
    | _ => rfl

theorem mapM_literal_isOk_iff (list : List Expr) :
    (∃ texts, list.mapM (literal q) = .ok texts) ↔ ∀ l ∈ list, ∃ text, Spells l text := by
  induction list with
  | nil => simp [pure_eq_ok]
  | cons l list ih =>
    rw [List.forall_mem_cons, ← ih]
    simp only [List.mapM_cons, bind_eq_ok, pure_eq_ok, literal_eq_ok]
    constructor
    · rintro ⟨texts, text, ht, rest, hr, -⟩
      exact ⟨⟨text, ht⟩, rest, hr⟩
    · rintro ⟨⟨text, ht⟩, rest, hr⟩
      exact ⟨text :: rest, text, ht, rest, hr, rfl⟩

namespace Conditions

theorem ofDate_isOk_iff (c : Comparison) (text : String) :
    (∃ cs, ofDate (.compare c) text = .ok cs) ↔ IsDateText text := by
  unfold ofDate DateCondition.parse IsDateText
  cases hday : day? (Text.trimChars text.toList) with
  | some d => simp [hday]
  | none =>
    cases htime : timestamp? (String.ofList (Text.trimChars text.toList)) <;> simp [hday, htime]

theorem typedOperand_isOk_iff (p : Path) (c : Comparison) (text : String) :
    (∃ operand, typedOperand p c text = .ok operand) ↔ c = .eq ∨ c = .ne ∨ IsNumberText text := by
  unfold typedOperand IsNumberText
  cases int64? text.toList with
  | some n => simp
  | none =>
    cases double? text.toList with
    | some x => simp
    | none => cases c <;> simp

theorem compare_isOk_iff (p : Path) (c : Comparison) (text : String) :
    (∃ cs, compare p c text = .ok cs) ↔ Comparable p c text := by
  unfold compare Comparable
  split
  · exact ofDate_isOk_iff c text
  · rw [← typedOperand_isOk_iff p]
    simp only [bind_eq_ok, pure_eq_ok]
    constructor
    · rintro ⟨-, operand, ho, -⟩
      exact ⟨operand, ho⟩
    · rintro ⟨operand, ho⟩
      exact ⟨_, operand, ho, rfl⟩

theorem like_isOk_iff (p : Path) (ignoreCase : Bool) (text : String) :
    (∃ cs, like p ignoreCase text = .ok cs) ↔
      isDate p = false ∧ (Pattern.ofSource? text ignoreCase).isSome := by
  unfold like
  cases isDate p with
  | true => cases ignoreCase <;> simp [ofDate, DateCondition.parse]
  | false => cases Pattern.ofSource? text ignoreCase <;> simp

theorem oneOf_isOk_iff (p : Path) (texts : List String) :
    (∃ cs, oneOf p texts = .ok cs) ↔ isDate p = false := by
  unfold oneOf
  cases isDate p <;> simp

theorem admissible_of_ofExpr {l : Expr} {cs : Conditions} (notNested : ∀ inner, l ≠ .nested inner)
    (notConjunction : ∀ a b, l ≠ .binary .conjunction a b) (h : ofExpr q l = .ok cs) :
    Admissible q (plainLikes l) := by
  revert h
  fun_cases ofExpr q l with
  | case1 e => exact absurd rfl (notNested e)
  | case2 a b => exact absurd rfl (notConjunction a b)
  | case3 c l r =>
    simp only [bind_eq_ok, field_eq_ok, literal_eq_ok]
    rintro ⟨p, hp, text, ht, h⟩
    exact .comparison hp ht ((compare_isOk_iff ..).mp ⟨cs, h⟩)
  | case4 e low high =>
    simp only [bind_eq_ok, field_eq_ok, literal_eq_ok]
    rintro ⟨p, hp, lowText, hlow, highText, hhigh, a, ha, b, hb, -⟩
    exact .between hp hlow hhigh ((compare_isOk_iff ..).mp ⟨a, ha⟩) ((compare_isOk_iff ..).mp ⟨b, hb⟩)
  | case5 e list =>
    simp only [bind_eq_ok, field_eq_ok]
    rintro ⟨p, hp, texts, ht, h⟩
    exact .oneOf hp ((oneOf_isOk_iff ..).mp ⟨cs, h⟩) ((mapM_literal_isOk_iff list).mp ⟨texts, ht⟩)
  | case6 ignoreCase any e pattern escape =>
    simp only [bind_eq_ok, field_eq_ok, literal_eq_ok]
    rintro ⟨p, hp, text, ht, h⟩
    obtain ⟨other, compiles⟩ := (like_isOk_iff ..).mp ⟨cs, h⟩
    exact .like hp other ht compiles
  | case7 e =>
    simp only [bind_eq_ok, field_eq_ok]
    rintro ⟨p, hp, -⟩
    exact .present hp
  | case8 => exact fun h => by cases h

theorem ofExpr_of_admissible {l : Expr} (h : Admissible q l) : ∃ cs, ofExpr q l = .ok cs := by
  cases h with
  | comparison hp ht comparable =>
    obtain ⟨cs, hc⟩ := (compare_isOk_iff ..).mpr comparable
    simp only [ofExpr, bind_eq_ok, field_eq_ok, literal_eq_ok]
    exact ⟨cs, _, hp, _, ht, hc⟩
  | between hp hlow hhigh above below =>
    obtain ⟨a, ha⟩ := (compare_isOk_iff ..).mpr above
    obtain ⟨b, hb⟩ := (compare_isOk_iff ..).mpr below
    simp only [ofExpr, bind_eq_ok, field_eq_ok, literal_eq_ok]
    exact ⟨a ++ b, _, hp, _, hlow, _, hhigh, a, ha, b, hb, rfl⟩
  | oneOf hp other elements =>
    obtain ⟨texts, ht⟩ := (mapM_literal_isOk_iff (q := q) _).mpr elements
    obtain ⟨cs, hc⟩ := (oneOf_isOk_iff _ texts).mpr other
    simp only [ofExpr, bind_eq_ok, field_eq_ok]
    exact ⟨cs, _, hp, texts, ht, hc⟩
  | like hp other ht compiles =>
    obtain ⟨cs, hc⟩ := (like_isOk_iff ..).mpr ⟨other, compiles⟩
    simp only [ofExpr, bind_eq_ok, field_eq_ok, literal_eq_ok]
    exact ⟨cs, _, hp, _, ht, hc⟩
  | present hp =>
    simp only [ofExpr, bind_eq_ok, field_eq_ok]
    exact ⟨_, _, hp, rfl⟩

theorem ofExpr_isOk_iff_admissible (e : Expr) :
    (∃ cs, ofExpr q e = .ok cs) ↔ ∀ l ∈ conjuncts (plainLikes e), Admissible q l := by
  rw [ofExpr_isOk_iff, conjuncts_plainLikes, List.forall_mem_map]
  refine forall₂_congr fun l hl => ⟨?_, fun h => ?_⟩
  · rintro ⟨cs, h⟩
    obtain ⟨notNested, notConjunction⟩ := leaf_of_mem_conjuncts hl
    exact admissible_of_ofExpr notNested notConjunction h
  · rw [← ofExpr_plainLikes]
    exact ofExpr_of_admissible h

/-- In a tree of admissible conditions the LIKEs are plain. -/
theorem plainLikes_of_admissible (h : ∀ l ∈ conjuncts e, Admissible q l) : plainLikes e = e := by
  fun_induction plainLikes e with
  | case1 e ih => rw [ih h]
  | case2 l r ihl ihr =>
    obtain ⟨hl, hr⟩ := List.forall_mem_append.mp h
    rw [ihl hl, ihr hr]
  | case3 ignoreCase any e pattern escape =>
    cases h _ (List.mem_singleton_self _)
    rfl
  | case4 => rfl

/-- The conditions of a tree are admissible when it compiles and its LIKEs are plain. -/
theorem admissible_iff (e : Expr) : (∀ l ∈ conjuncts e, Admissible q l) ↔
    (∃ cs, ofExpr q e = .ok cs) ∧ plainLikes e = e := by
  rw [ofExpr_isOk_iff_admissible]
  constructor
  · intro h
    have hplain := plainLikes_of_admissible h
    exact ⟨by rwa [hplain], hplain⟩
  · rintro ⟨h, hplain⟩
    rwa [hplain] at h

end Conditions

end Leaves

section Parts

variable {q : Marked} {e part : Expr} {p : Path} {text : String}

/-- Whether everything in a tree has a permitted form. -/
def Throughout (e : Expr) : Prop := ∀ part, Occurs part e → Permitted part

theorem throughout_of_operands (he : Permitted e) (ho : ∀ o ∈ operands e, Throughout o) :
    Throughout e := by
  intro part h
  cases h with
  | here => exact he
  | inside hm hb => exact ho _ hm part hb

theorem Names.throughout (h : Names q e p) : Throughout e := by
  induction h with
  | ident i => exact throughout_of_operands (.ident i) (by simp [operands])
  | path parts => exact throughout_of_operands (.path parts) (by simp [operands])
  | nested _ ih => exact throughout_of_operands (.nested _) (by simpa [operands] using ih)

theorem Spells.throughout (h : Spells e text) : Throughout e := by
  have number (n : String) (long : Bool) : Throughout (.literal (.number n long)) :=
    throughout_of_operands (.number n long) (by simp [operands])
  induction h with
  | number n long => exact number n long
  | negated n long =>
    exact throughout_of_operands (.negated n long) (by simpa [operands] using number n long)
  | text s => exact throughout_of_operands (.text s) (by simp [operands])
  | boolean b => exact throughout_of_operands (.boolean b) (by simp [operands])
  | quoted s quote => exact throughout_of_operands (.ident _) (by simp [operands])
  | nested _ ih => exact throughout_of_operands (.nested _) (by simpa [operands] using ih)

theorem Admissible.throughout (h : Admissible q e) : Throughout e := by
  cases h with
  | comparison hp ht _ =>
    exact throughout_of_operands (.comparison ..) (by simp [operands, hp.throughout, ht.throughout])
  | between hp hlow hhigh _ _ =>
    exact throughout_of_operands (.between ..)
      (by simp [operands, hp.throughout, hlow.throughout, hhigh.throughout])
  | oneOf hp _ elements =>
    refine throughout_of_operands (.inList ..) (List.forall_mem_cons.mpr ⟨hp.throughout, ?_⟩)
    intro l hl
    obtain ⟨text, ht⟩ := elements l hl
    exact ht.throughout
  | like hp _ ht _ =>
    exact throughout_of_operands (.like ..) (by simp [operands, hp.throughout, ht.throughout])
  | present hp => exact throughout_of_operands (.present _) (by simp [operands, hp.throughout])

theorem throughout_of_conjuncts (h : ∀ l ∈ Conditions.conjuncts e, Throughout l) : Throughout e := by
  fun_induction Conditions.conjuncts e with
  | case1 e ih => exact throughout_of_operands (.nested e) (by simpa [operands] using ih h)
  | case2 l r ihl ihr =>
    obtain ⟨hl, hr⟩ := List.forall_mem_append.mp h
    exact throughout_of_operands (.conjunction l r) (by simp [operands, ihl hl, ihr hr])
  | case3 e => exact h e (List.mem_singleton_self e)

/-- **What may be asked of a record.** A WHERE compiles to what it compiles to with plain
LIKEs, and exactly when its conjuncts are then conditions on a field. So what compiles has
only such conditions exactly if its LIKEs are plain. It is an error when anything of another
form stands anywhere in it: a disjunction, a negation, a subquery, and whatever else the
grammar knows. -/
theorem ofExpr_accepts (q : Marked) (e : Expr) :
    Conditions.ofExpr q (plainLikes e) = Conditions.ofExpr q e ∧
    ((∃ cs, Conditions.ofExpr q e = .ok cs) ↔
      ∀ l ∈ Conditions.conjuncts (plainLikes e), Admissible q l) ∧
    ((∀ l ∈ Conditions.conjuncts e, Admissible q l) ↔
      (∃ cs, Conditions.ofExpr q e = .ok cs) ∧ plainLikes e = e) ∧
    ((∃ part, Occurs part (plainLikes e) ∧ ¬ Permitted part) →
      ∃ error, Conditions.ofExpr q e = .error error) := by
  refine ⟨Conditions.ofExpr_plainLikes e, Conditions.ofExpr_isOk_iff_admissible e,
    Conditions.admissible_iff e, ?_⟩
  rintro ⟨part, hpart, hn⟩
  cases h : Conditions.ofExpr q e with
  | error error => exact ⟨error, rfl⟩
  | ok cs =>
    have admissible := (Conditions.ofExpr_isOk_iff_admissible e).mp ⟨cs, h⟩
    exact absurd (throughout_of_conjuncts (fun l hl => (admissible l hl).throughout) part hpart) hn

/-- `a LIKE 'x!%' ESCAPE '!'` compiles. -/
theorem escape_compiles :
    ¬ ∀ (q : Marked) (e : Expr), (∃ cs, Conditions.ofExpr q e = .ok cs) ↔
      ∀ l ∈ Conditions.conjuncts e, Admissible q l := by
  intro hclaim
  have hcompiles : ∃ cs, Conditions.ofExpr (.ofChars [])
      (.like false false false (.ident ⟨"a", none⟩) (.literal (.text "x!%")) (some "!")) = .ok cs :=
    ⟨_, rfl⟩
  have hadmissible := (hclaim _ _).mp hcompiles _ (List.mem_singleton_self _)
  cases hadmissible

end Parts

end LogQuery.Compile
