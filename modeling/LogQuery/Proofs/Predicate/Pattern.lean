import Mathlib.Data.List.Forall2
import LogQuery.Predicate.PatternSize

/-!
# What a pattern matches

A text matches a pattern when it falls into pieces, one after the other and one for each
character of the pattern. Matching keeps rows, which tell for every end part of the text
whether an end part of the pattern matches it; one more character of the pattern turns the
row of the rest into its own.

A pattern also stands for a regular expression, which is found in a text exactly when the
text matches: the runs of other characters are escaped, so the syntax of expressions reads
them as themselves, and the expression is held at both ends of the text.
-/

namespace LogQuery.Predicate

open LogQuery.Text

namespace Pattern

/-! ## Pieces -/

/-- A character of a text is the one of a pattern, or one that has the same simple folding. -/
def Same (ignoreCase : Bool) (p c : Char) : Prop :=
  if ignoreCase then fold p = fold c else p = c

/-- The pieces that a character of a pattern takes. -/
inductive Takes (ignoreCase : Bool) : Char → List Char → Prop
  | run (piece : List Char) : Takes ignoreCase '%' piece
  | one (c : Char) : Takes ignoreCase '_' [c]
  | itself {p c : Char} (hrun : p ≠ '%') (hone : p ≠ '_') (h : Same ignoreCase p c) :
    Takes ignoreCase p [c]

/-- A text falls into pieces, one for each character of a pattern. -/
def FallsInto (ignoreCase : Bool) (pattern text : List Char) : Prop :=
  ∃ pieces, List.Forall₂ (Takes ignoreCase) pattern pieces ∧ pieces.flatten = text

variable {ignoreCase : Bool} {p c : Char} {pattern text rest piece : List Char}

theorem sameChar_iff : sameChar ignoreCase p c = true ↔ Same ignoreCase p c := by
  cases ignoreCase with
  | false => simp [sameChar, Same]
  | true =>
    simp only [sameChar, Same, sameFolded, if_true, Bool.or_eq_true, beq_iff_eq]
    exact ⟨fun h => h.elim (congrArg fold) id, .inr⟩

theorem fallsInto_nil : FallsInto ignoreCase [] text ↔ text = [] := by
  constructor
  · rintro ⟨pieces, hpieces, rfl⟩
    cases hpieces
    rfl
  · rintro rfl
    exact ⟨[], .nil, rfl⟩

theorem fallsInto_cons : FallsInto ignoreCase (p :: pattern) text ↔
    ∃ piece rest, text = piece ++ rest ∧ Takes ignoreCase p piece ∧
      FallsInto ignoreCase pattern rest := by
  constructor
  · rintro ⟨pieces, hpieces, rfl⟩
    obtain ⟨piece, pieces, hpiece, hrest, rfl⟩ := List.forall₂_cons_left_iff.mp hpieces
    exact ⟨piece, pieces.flatten, rfl, hpiece, pieces, hrest, rfl⟩
  · rintro ⟨piece, rest, rfl, hpiece, pieces, hrest, rfl⟩
    exact ⟨piece :: pieces, .cons hpiece hrest, rfl⟩

theorem takes_run : Takes ignoreCase '%' piece :=
  .run piece

/-- Every other character takes one character. -/
theorem takes_single (hp : p ≠ '%') : Takes ignoreCase p piece ↔
    ∃ c, piece = [c] ∧ (p = '_' ∨ Same ignoreCase p c) := by
  constructor
  · intro h
    cases h with
    | run => exact absurd rfl hp
    | one c => exact ⟨c, rfl, .inl rfl⟩
    | itself _ _ h => exact ⟨_, rfl, .inr h⟩
  · rintro ⟨c, rfl, hsame⟩
    by_cases hone : p = '_'
    · exact hone ▸ .one c
    · exact .itself hp hone (hsame.resolve_left hone)

/-! ## Rows -/

/-- A row tells which end parts of a text have a property. -/
inductive Tells (P : List Char → Prop) : List Char → List Bool → Prop
  | nil {here : Bool} (h : here = true ↔ P []) : Tells P [] [here]
  | cons {c : Char} {cs : List Char} {here : Bool} {next : List Bool}
    (h : here = true ↔ P (c :: cs)) (hnext : Tells P cs next) : Tells P (c :: cs) (here :: next)

variable {P Q : List Char → Prop} {row : List Bool}

theorem Tells.head (h : Tells P text row) : row.headD false = true ↔ P text := by
  cases h <;> assumption

theorem tells_emptyRow (text : List Char) : Tells (· = []) text (emptyRow text) := by
  induction text with
  | nil => exact .nil (by simp)
  | cons c cs ih => exact .cons (by simp) ih

/-- What one more character makes of a property: it takes a piece before what has it. -/
def After (ignoreCase : Bool) (p : Char) (P : List Char → Prop) (text : List Char) : Prop :=
  ∃ piece rest, text = piece ++ rest ∧ Takes ignoreCase p piece ∧ P rest

theorem after_run_nil : After ignoreCase '%' P [] ↔ P [] := by
  constructor
  · rintro ⟨piece, rest, h, -, hP⟩
    obtain ⟨-, rfl⟩ := List.append_eq_nil_iff.mp h.symm
    exact hP
  · exact fun hP => ⟨[], [], rfl, takes_run, hP⟩

/-- A run takes nothing here, or this character and a run after it. -/
theorem after_run_cons {cs : List Char} :
    After ignoreCase '%' P (c :: cs) ↔ P (c :: cs) ∨ After ignoreCase '%' P cs := by
  constructor
  · rintro ⟨piece, rest, h, -, hP⟩
    obtain ⟨rfl, rfl⟩ | ⟨piece, rfl, rfl⟩ := List.cons_eq_append_iff.mp h
    · exact .inl hP
    · exact .inr ⟨piece, rest, rfl, takes_run, hP⟩
  · rintro (hP | ⟨piece, rest, rfl, -, hP⟩)
    · exact ⟨[], c :: cs, rfl, takes_run, hP⟩
    · exact ⟨c :: piece, rest, rfl, takes_run, hP⟩

theorem after_single_nil (hp : p ≠ '%') : ¬ After ignoreCase p P [] := by
  rintro ⟨piece, rest, h, htakes, -⟩
  obtain ⟨c, rfl, -⟩ := (takes_single hp).mp htakes
  cases h

theorem after_single_cons {cs : List Char} (hp : p ≠ '%') :
    After ignoreCase p P (c :: cs) ↔ (p = '_' ∨ Same ignoreCase p c) ∧ P cs := by
  constructor
  · rintro ⟨piece, rest, h, htakes, hP⟩
    obtain ⟨d, rfl, hsame⟩ := (takes_single hp).mp htakes
    obtain ⟨rfl, rfl⟩ := List.cons.inj h
    exact ⟨hsame, hP⟩
  · rintro ⟨hsame, hP⟩
    exact ⟨[c], cs, rfl, (takes_single hp).mpr ⟨c, rfl, hsame⟩, hP⟩

/-- One more character makes the row of a property the row of what comes before it. -/
theorem tells_extendRow (h : Tells P text row) :
    Tells (After ignoreCase p P) text (extendRow ignoreCase p text row) := by
  by_cases hp : p = '%'
  · subst hp
    induction h with
    | nil h => exact .nil (by simp [h, after_run_nil])
    | cons h _ ih =>
      refine .cons ?_ ih
      rw [after_run_cons, ← ih.head, ← h]
      simp
  · induction h with
    | nil => exact .nil (by simp [hp, after_single_nil hp])
    | cons _ hnext ih =>
      refine .cons ?_ ih
      rw [after_single_cons hp, ← hnext.head, ← sameChar_iff]
      simp [hp]

theorem Tells.congr (h : Tells P text row) (hPQ : ∀ t, P t ↔ Q t) : Tells Q text row := by
  induction h with
  | nil h => exact .nil (h.trans (hPQ _))
  | cons h _ ih => exact .cons (h.trans (hPQ _)) ih

/-- The row of a pattern tells which end parts of a text fall into its pieces. -/
theorem tells_row (ignoreCase : Bool) (pattern text : List Char) :
    Tells (FallsInto ignoreCase pattern) text (Pattern.row ignoreCase pattern text) := by
  induction pattern with
  | nil => exact (tells_emptyRow text).congr fun _ => fallsInto_nil.symm
  | cons p pattern ih => exact (tells_extendRow ih).congr fun _ => fallsInto_cons.symm

theorem isMatch_iff (p : Pattern) (text : String) :
    p.isMatch text = true ↔ FallsInto p.ignoreCase p.source.toList text.toList :=
  (tells_row ..).head

/-! ## Expressions -/

/-- The characters that are signs of the syntax of expressions. -/
def isSyntaxSign (c : Char) : Bool := "\\.+*?()|[]\x7b\x7d^$#&-~".toList.contains c

/-- A text with a backslash before every sign of the syntax. -/
def escaped (cs : List Char) : List Char :=
  cs.flatMap fun c => if isSyntaxSign c then ['\\', c] else [c]

/-- The expression of a pattern from here on, with the characters since the last `%` or `_`. -/
def expressionFrom (run : List Char) : List Char → List Char
  | [] => escaped run ++ ['$']
  | '%' :: cs => escaped run ++ ['.', '*'] ++ expressionFrom [] cs
  | '_' :: cs => escaped run ++ ['.'] ++ expressionFrom [] cs
  | c :: cs => expressionFrom (run ++ [c]) cs

/-- The regular expression that a pattern stands for. -/
def expression (p : Pattern) : List Char := '^' :: expressionFrom [] p.source.toList

/-- What an expression is made of. -/
inductive Item
  | start
  | finish
  | any
  | anyRun
  | char (c : Char)
deriving DecidableEq, Repr

/-- Reads an expression that is made of such items; other uses of the signs are not read. -/
def items? : List Char → Option (List Item)
  | [] => some []
  | '\\' :: c :: cs => if isSyntaxSign c then (items? cs).map (.char c :: ·) else none
  | '.' :: '*' :: cs => (items? cs).map (.anyRun :: ·)
  | '.' :: cs => (items? cs).map (.any :: ·)
  | '^' :: cs => (items? cs).map (.start :: ·)
  | '$' :: cs => (items? cs).map (.finish :: ·)
  | c :: cs => if isSyntaxSign c then none else (items? cs).map (.char c :: ·)

/-- Items match one after the other from a place of a text on, with what stands before the
place and what comes after it. -/
def Fit (ignoreCase : Bool) : List Item → (before after : List Char) → Prop
  | [], _, _ => True
  | .start :: es, before, after => before = [] ∧ Fit ignoreCase es before after
  | .finish :: es, before, after => after = [] ∧ Fit ignoreCase es before after
  | .any :: es, before, after =>
    ∃ c rest, after = c :: rest ∧ Fit ignoreCase es (before ++ [c]) rest
  | .anyRun :: es, before, after =>
    ∃ run rest, after = run ++ rest ∧ Fit ignoreCase es (before ++ run) rest
  | .char p :: es, before, after =>
    ∃ c rest, after = c :: rest ∧ Same ignoreCase p c ∧ Fit ignoreCase es (before ++ [c]) rest

/-- An expression matches somewhere in a text. -/
def Found (ignoreCase : Bool) (expression text : List Char) : Prop :=
  ∃ items, items? expression = some items ∧
    ∃ before after, text = before ++ after ∧ Fit ignoreCase items before after

/-- The item that a character of a pattern stands for. -/
def itemOf (c : Char) : Item := if c = '%' then .anyRun else if c = '_' then .any else .char c

/-- The text of that item. -/
def itemText (c : Char) : List Char :=
  if c = '%' then ['.', '*'] else if c = '_' then ['.'] else escaped [c]

theorem escaped_append (cs ds : List Char) : escaped (cs ++ ds) = escaped cs ++ escaped ds :=
  List.flatMap_append

/-- Gathering runs before they are escaped makes no difference. -/
theorem expressionFrom_eq (run cs : List Char) :
    expressionFrom run cs = escaped run ++ (cs.flatMap itemText ++ ['$']) := by
  fun_induction expressionFrom run cs with
  | case1 run => rfl
  | case2 run cs ih => rw [ih]; simp [escaped, itemText]
  | case3 run cs ih => rw [ih]; simp [escaped, itemText]
  | case4 run c cs hrun hone ih =>
    rw [ih, escaped_append, List.append_assoc, List.flatMap_cons]
    simp [itemText, show c ≠ '%' from hrun, show c ≠ '_' from hone]

theorem items?_sign (hc : isSyntaxSign c = true) (rest : List Char) :
    items? ('\\' :: c :: rest) = (items? rest).map (.char c :: ·) := by
  rw [items?, if_pos hc]

theorem items?_plain (hc : isSyntaxSign c = false) (rest : List Char) :
    items? (c :: rest) = (items? rest).map (.char c :: ·) := by
  have hne : ∀ d, isSyntaxSign d = true → c ≠ d := by
    rintro d hd rfl
    exact Bool.false_ne_true (hc.symm.trans hd)
  have hbackslash : c ≠ '\\' := hne _ (by decide)
  have hdot : c ≠ '.' := hne _ (by decide)
  have hstart : c ≠ '^' := hne _ (by decide)
  have hfinish : c ≠ '$' := hne _ (by decide)
  rw [items?.eq_def]
  split <;> simp_all

/-- An escaped character is read as itself. -/
theorem items?_escaped (c : Char) (rest : List Char) :
    items? (escaped [c] ++ rest) = (items? rest).map (.char c :: ·) := by
  cases hc : isSyntaxSign c with
  | true => simpa [escaped, hc] using items?_sign hc rest
  | false => simpa [escaped, hc] using items?_plain hc rest

theorem head?_itemTexts (cs : List Char) : (cs.flatMap itemText ++ ['$']).head? ≠ some '*' := by
  cases cs with
  | nil => decide
  | cons c cs =>
    rw [List.flatMap_cons]
    unfold itemText escaped
    split
    · simp
    split
    · simp
    cases hc : isSyntaxSign c with
    | true => simp [hc]
    | false =>
      have hstar : c ≠ '*' := by
        rintro rfl
        exact absurd hc (by decide)
      simpa [hc] using hstar

/-- The expression of a pattern is read as its items, held at both ends. -/
theorem items?_expression (p : Pattern) :
    items? p.expression = some (.start :: (p.source.toList.map itemOf ++ [.finish])) := by
  have htexts : ∀ cs : List Char,
      items? (cs.flatMap itemText ++ ['$']) = some (cs.map itemOf ++ [.finish]) := by
    intro cs
    induction cs with
    | nil => rfl
    | cons c cs ih =>
      rw [List.flatMap_cons, List.append_assoc]
      by_cases hrun : c = '%'
      · simp [hrun, itemText, itemOf, items?, ih]
      by_cases hone : c = '_'
      · have hread : ∀ rest : List Char, rest.head? ≠ some '*' →
            items? ('.' :: rest) = (items? rest).map (.any :: ·) := by
          intro rest hrest
          rw [items?]
          rintro rest' rfl
          exact hrest rfl
        rw [itemText, if_neg hrun, if_pos hone, List.singleton_append, hread _ (head?_itemTexts cs), ih]
        simp [hone, itemOf]
      · rw [itemText, if_neg hrun, if_neg hone, items?_escaped, ih]
        simp [hrun, hone, itemOf]
  rw [expression, expressionFrom_eq, items?]
  simp [escaped, htexts]

theorem fit_itemOf (c : Char) (es : List Item) (before after : List Char) :
    Fit ignoreCase (itemOf c :: es) before after ↔ ∃ piece rest, after = piece ++ rest ∧
      Takes ignoreCase c piece ∧ Fit ignoreCase es (before ++ piece) rest := by
  unfold itemOf
  split
  · next hrun =>
    subst hrun
    simp [Fit, takes_run]
  split
  · next hrun hone =>
    subst hone
    constructor
    · rintro ⟨d, rest, rfl, hfit⟩
      exact ⟨[d], rest, rfl, .one d, hfit⟩
    · rintro ⟨piece, rest, rfl, htakes, hfit⟩
      obtain ⟨d, rfl, -⟩ := (takes_single hrun).mp htakes
      exact ⟨d, rest, rfl, hfit⟩
  · next hrun hone =>
    constructor
    · rintro ⟨d, rest, rfl, hsame, hfit⟩
      exact ⟨[d], rest, rfl, .itself hrun hone hsame, hfit⟩
    · rintro ⟨piece, rest, rfl, htakes, hfit⟩
      obtain ⟨d, rfl, hsame⟩ := (takes_single hrun).mp htakes
      exact ⟨d, rest, rfl, hsame.resolve_left hone, hfit⟩

/-- The items of a pattern match up to the end of a text what falls into its pieces. -/
theorem fit_items (pattern before after : List Char) :
    Fit ignoreCase (pattern.map itemOf ++ [.finish]) before after ↔
      FallsInto ignoreCase pattern after := by
  induction pattern generalizing before after with
  | nil => simp [Fit, fallsInto_nil]
  | cons c pattern ih => simp only [List.map_cons, List.cons_append, fit_itemOf, ih, fallsInto_cons]

/-- The expression of a pattern is found in the texts that fall into its pieces. -/
theorem found_expression (p : Pattern) (text : List Char) :
    Found p.ignoreCase p.expression text ↔ FallsInto p.ignoreCase p.source.toList text := by
  simp [Found, items?_expression, Fit, fit_items]

theorem eq_of_ofSource? {source : String} {p : Pattern} (h : ofSource? source ignoreCase = some p) :
    p = ⟨source, ignoreCase⟩ := by
  unfold ofSource? at h
  simp only [Option.ite_none_left_eq_some] at h
  exact (Option.some.inj h.2).symm

/-- A text matches a pattern exactly when it falls into pieces, one for each character of
the pattern, and exactly when the expression of the pattern is found in it. -/
theorem matched_in_pieces {source : String} {p : Pattern} (h : ofSource? source ignoreCase = some p)
    (text : String) :
    (p.isMatch text = true ↔ ∃ pieces, List.Forall₂ (Takes ignoreCase) source.toList pieces ∧
      pieces.flatten = text.toList) ∧
    (p.isMatch text = true ↔ Found ignoreCase p.expression text.toList) := by
  obtain rfl := eq_of_ofSource? h
  exact ⟨isMatch_iff .., (isMatch_iff ..).trans (found_expression ..).symm⟩

/-- A pattern with both wildcards, signs of the syntax and a letter of two bytes. -/
theorem matched_in_pieces_signs : ofSource? "%É_(.*" true = some ⟨"%É_(.*", true⟩ ∧
    expression ⟨"%É_(.*", true⟩ = "^.*É.\\(\\.\\*$".toList ∧
    (∃ pieces, List.Forall₂ (Takes true) "%É_(.*".toList pieces ∧
      pieces.flatten = "a\né\n(.*".toList) ∧
    ¬ Found true (expression ⟨"%É_(.*", true⟩) "aéb(x*".toList := by
  have hsource : ofSource? "%É_(.*" true = some ⟨"%É_(.*", true⟩ := by decide +kernel
  refine ⟨hsource, by decide +kernel, ?_, ?_⟩
  · exact (matched_in_pieces hsource "a\né\n(.*").1.mp (by decide +kernel)
  · rw [← String.toList_ofList (l := "aéb(x*".toList)]
    exact mt (matched_in_pieces hsource _).2.mpr (by decide +kernel)

end Pattern

end LogQuery.Predicate
