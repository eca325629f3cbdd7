import Mathlib
import LogQuery.Proofs.Predicate.Pattern

/-!
# What a pattern with an ESCAPE means

Behind ESCAPE a query may give a character of the pattern after which the next character
stands for itself, also if it is `%` or `_`. The empty text gives no character, and no other
text gives one. A pattern means the same without its ESCAPE exactly if the pattern does not
have the character that is given.
-/

namespace LogQuery.Predicate.Pattern

open LogQuery.Text

/-- A character of a pattern: as it is written, or standing for itself. -/
inductive Sign
  | written (c : Char)
  | itself (c : Char)

/-- The signs that a pattern is read as. An escape character may not be the last one. -/
inductive Reads (escape : Option Char) : List Char → List Sign → Prop
  | nil : Reads escape [] []
  | escaped {c d : Char} {cs : List Char} {signs : List Sign} (hc : escape = some c)
    (hcs : Reads escape cs signs) : Reads escape (c :: d :: cs) (.itself d :: signs)
  | written {c : Char} {cs : List Char} {signs : List Sign} (hc : escape ≠ some c)
    (hcs : Reads escape cs signs) : Reads escape (c :: cs) (.written c :: signs)

/-- The escape character that the text behind ESCAPE gives, if it may stand there. -/
def escapeChar? : Option String → Option (Option Char)
  | none => some none
  | some text =>
    match text.toList with
    | [] => some none
    | [c] => some (some c)
    | _ => none

/-- The pieces that a sign takes. -/
inductive SignTakes (ignoreCase : Bool) : Sign → List Char → Prop
  | written {c : Char} {piece : List Char} (h : Takes ignoreCase c piece) :
    SignTakes ignoreCase (.written c) piece
  | itself {c d : Char} (h : Same ignoreCase c d) : SignTakes ignoreCase (.itself c) [d]

/-- A text falls into pieces, one for each sign. -/
def FitsSigns (ignoreCase : Bool) (signs : List Sign) (text : List Char) : Prop :=
  ∃ pieces, List.Forall₂ (SignTakes ignoreCase) signs pieces ∧ pieces.flatten = text

/-- A text is what a pattern with an ESCAPE asks for. -/
def Fits (ignoreCase : Bool) (escape : Option String) (pattern text : List Char) : Prop :=
  ∃ c signs, escapeChar? escape = some c ∧ Reads c pattern signs ∧ FitsSigns ignoreCase signs text

/-- An ESCAPE gives no character that a pattern has. -/
def Idle (escape : Option String) (pattern : List Char) : Prop :=
  ∃ c, escapeChar? escape = some c ∧ ∀ d, c = some d → d ∉ pattern

variable {ignoreCase : Bool} {c d : Char} {pattern text piece : List Char} {sign : Sign}
  {signs : List Sign} {escape : Option Char}

/-! ## Without a character of the pattern -/

theorem reads_written (h : ∀ d, escape = some d → d ∉ pattern) :
    Reads escape pattern (pattern.map .written) := by
  induction pattern with
  | nil => exact .nil
  | cons c pattern ih =>
    have hc : escape ≠ some c := fun he => h c he List.mem_cons_self
    exact .written hc (ih fun d he hd => h d he (List.mem_cons_of_mem _ hd))

theorem Reads.eq_written (h : Reads escape pattern signs)
    (hnot : ∀ d, escape = some d → d ∉ pattern) : signs = pattern.map .written := by
  induction h with
  | nil => rfl
  | escaped hc _ _ => exact absurd List.mem_cons_self (hnot _ hc)
  | written _ _ ih =>
    rw [ih fun d he hd => hnot d he (List.mem_cons_of_mem _ hd)]
    rfl

theorem signTakes_written : SignTakes ignoreCase (.written c) piece ↔ Takes ignoreCase c piece := by
  constructor
  · intro h
    cases h
    assumption
  · exact .written

/-- Signs that stand as they are written take the pieces of the pattern. -/
theorem fitsSigns_written :
    FitsSigns ignoreCase (pattern.map .written) text ↔ FallsInto ignoreCase pattern text := by
  simp only [FitsSigns, FallsInto, List.forall₂_map_left_iff, signTakes_written]

/-- A pattern means the same without an ESCAPE that gives no character of it. -/
theorem Idle.fits_iff {escape : Option String} (h : Idle escape pattern) :
    Fits ignoreCase escape pattern text ↔ FallsInto ignoreCase pattern text := by
  obtain ⟨c, hc, hnot⟩ := h
  rw [← fitsSigns_written]
  constructor
  · intro hfits
    obtain ⟨c', signs, hc', hreads, hfits⟩ := hfits
    obtain rfl : c = c' := Option.some.inj (hc.symm.trans hc')
    rw [← hreads.eq_written hnot]
    exact hfits
  · intro hfits
    exact ⟨c, _, hc, reads_written hnot, hfits⟩

theorem idle_none : Idle none pattern :=
  ⟨none, rfl, by simp⟩

/-! ## With a character of the pattern -/

theorem fitsSigns_cons : FitsSigns ignoreCase (sign :: signs) text ↔
    ∃ piece rest, text = piece ++ rest ∧ SignTakes ignoreCase sign piece ∧
      FitsSigns ignoreCase signs rest := by
  constructor
  · intro h
    obtain ⟨pieces, hpieces, rfl⟩ := h
    obtain ⟨piece, pieces, hpiece, hrest, rfl⟩ := List.forall₂_cons_left_iff.mp hpieces
    exact ⟨piece, pieces.flatten, rfl, hpiece, pieces, hrest, rfl⟩
  · intro h
    obtain ⟨piece, rest, rfl, hpiece, pieces, hrest, rfl⟩ := h
    exact ⟨piece :: pieces, .cons hpiece hrest, rfl⟩

theorem same_refl (c : Char) : Same ignoreCase c c := by
  unfold Same
  split <;> rfl

theorem takes_singleton (c : Char) : Takes ignoreCase c [c] := by
  by_cases hrun : c = '%'
  · exact hrun ▸ .run _
  · exact (takes_single hrun).mpr ⟨c, rfl, .inr (same_refl c)⟩

/-- Where the folding table leads is beyond `%`. -/
theorem run_lt_of_mem_foldTable :
    ∀ e ∈ foldTable, ('%'.toNat : Int) < e.1 + e.2.2.2 := by decide +kernel

/-- Nothing but `%` folds to `%`. -/
theorem eq_run_of_fold (h : fold c = '%') : c = '%' := by
  unfold fold at h
  split at h
  · have hupper : ¬ c.isUpper := by
      intro hupper
      have halpha : c.toLower.isAlpha := by simp [Char.isAlpha, hupper]
      rw [h] at halpha
      exact absurd halpha (by decide)
    rw [← h, Char.toLower_eq_of_not_isUpper hupper]
  · split at h
    · next first last step distance hfind =>
      have hbeyond : ('%'.toNat : Int) < first + distance :=
        run_lt_of_mem_foldTable _ (List.mem_of_find?_eq_some hfind)
      have hrange := List.find?_some hfind
      simp only [Bool.and_eq_true, decide_eq_true_eq] at hrange
      have hn := congrArg Char.toNat h
      rw [Char.toNat_ofNat] at hn
      have hrun : '%'.toNat = 37 := rfl
      split at hn <;> omega
    · exact h

theorem eq_run_of_same (h : Same ignoreCase '%' c) : c = '%' := by
  unfold Same at h
  split at h
  · exact eq_run_of_fold (h.symm.trans (by decide))
  · exact h.symm

/-- A text with a `_` for each `%` of a pattern. -/
def shown (pattern : List Char) : List Char := pattern.map fun c => if c = '%' then '_' else c

theorem run_not_mem_shown : '%' ∉ shown pattern := by
  intro h
  obtain ⟨c, -, hc⟩ := List.mem_map.mp h
  split at hc
  · cases hc
  · contradiction

theorem fallsInto_shown (pattern : List Char) : FallsInto ignoreCase pattern (shown pattern) := by
  induction pattern with
  | nil => exact fallsInto_nil.mpr rfl
  | cons c pattern ih =>
    refine fallsInto_cons.mpr ⟨[if c = '%' then '_' else c], shown pattern, rfl, ?_, ih⟩
    split
    · next hrun => exact hrun ▸ .run _
    · exact takes_singleton c

/-- A sign that stands for `%` itself takes one. -/
theorem run_mem_of_itself (h : FitsSigns ignoreCase signs text) (hmem : .itself '%' ∈ signs) :
    '%' ∈ text := by
  induction signs generalizing text with
  | nil => cases hmem
  | cons sign signs ih =>
    obtain ⟨piece, rest, rfl, htakes, hrest⟩ := fitsSigns_cons.mp h
    rcases List.mem_cons.mp hmem with rfl | hmem
    · cases htakes with
      | itself hsame => simp [eq_run_of_same hsame]
    · exact List.mem_append_right _ (ih hrest hmem)

/-- With `%` to escape, nothing takes a run. -/
theorem length_of_fitsSigns (hreads : Reads (some '%') pattern signs)
    (h : FitsSigns ignoreCase signs text) : text.length = signs.length := by
  induction hreads generalizing text with
  | nil =>
    obtain ⟨pieces, hpieces, rfl⟩ := h
    cases hpieces
    rfl
  | escaped _ _ ih =>
    obtain ⟨piece, rest, rfl, htakes, hrest⟩ := fitsSigns_cons.mp h
    cases htakes with
    | itself _ => simp [ih hrest]
  | written hc _ ih =>
    obtain ⟨piece, rest, rfl, htakes, hrest⟩ := fitsSigns_cons.mp h
    obtain ⟨d, rfl, -⟩ := (takes_single fun hrun => hc (by rw [hrun])).mp
      (signTakes_written.mp htakes)
    simp [ih hrest]

theorem Reads.length_le (h : Reads escape pattern signs) : signs.length ≤ pattern.length := by
  induction h with
  | nil => exact Nat.le_refl _
  | escaped _ _ ih => simp only [List.length_cons]; omega
  | written _ _ ih => simp only [List.length_cons]; omega

/-- Each escape character makes a pattern longer than its signs. -/
theorem Reads.length_lt (h : Reads (some c) pattern signs) (hc : c ∈ pattern) :
    signs.length < pattern.length := by
  induction h with
  | nil => cases hc
  | escaped _ hcs _ =>
    have := hcs.length_le
    simp only [List.length_cons]
    omega
  | written hne _ ih =>
    rcases List.mem_cons.mp hc with rfl | hc
    · exact absurd rfl hne
    · have := ih hc
      simp only [List.length_cons]
      omega

/-- The shortest text for some signs. -/
def shortest : List Sign → List Char
  | [] => []
  | .written c :: signs => if c = '%' then shortest signs else c :: shortest signs
  | .itself c :: signs => c :: shortest signs

theorem fitsSigns_shortest (signs : List Sign) : FitsSigns ignoreCase signs (shortest signs) := by
  induction signs with
  | nil => exact ⟨[], .nil, rfl⟩
  | cons sign signs ih =>
    cases sign with
    | written c =>
      by_cases hrun : c = '%'
      · rw [shortest, if_pos hrun]
        exact fitsSigns_cons.mpr ⟨[], _, rfl, .written (hrun ▸ .run _), ih⟩
      · rw [shortest, if_neg hrun]
        exact fitsSigns_cons.mpr ⟨[c], _, rfl, .written (takes_singleton c), ih⟩
    | itself c => exact fitsSigns_cons.mpr ⟨[c], _, rfl, .itself (same_refl c), ih⟩

theorem length_shortest_le (h : FitsSigns ignoreCase signs text) :
    (shortest signs).length ≤ text.length := by
  induction signs generalizing text with
  | nil => exact Nat.zero_le _
  | cons sign signs ih =>
    obtain ⟨piece, rest, rfl, htakes, hrest⟩ := fitsSigns_cons.mp h
    have hle := ih hrest
    rw [List.length_append]
    cases htakes with
    | written htakes =>
      rw [shortest]
      split
      · omega
      · next hrun =>
        obtain ⟨d, rfl, -⟩ := (takes_single hrun).mp htakes
        simp only [List.length_cons, List.length_nil]
        omega
    | itself _ =>
      simp only [shortest, List.length_cons, List.length_nil]
      omega

/-- If no `%` stands for itself, each escape character makes the shortest text longer. -/
theorem Reads.length_shortest (h : Reads (some c) pattern signs) (hc : c ≠ '%')
    (hitself : .itself '%' ∉ signs) :
    (shortest (pattern.map .written)).length + signs.length =
      (shortest signs).length + pattern.length := by
  induction h with
  | nil => rfl
  | @escaped e d cs signs he _ ih =>
    obtain rfl := Option.some.inj he
    obtain ⟨hd, hrest⟩ := not_or.mp (mt List.mem_cons.mpr hitself)
    have hd : d ≠ '%' := fun hrun => hd (by rw [hrun])
    have := ih hrest
    simp only [List.map_cons, shortest, if_neg hc, if_neg hd, List.length_cons]
    omega
  | @written e cs signs _ _ ih =>
    have := ih fun hmem => hitself (List.mem_cons_of_mem _ hmem)
    simp only [List.map_cons, shortest]
    split <;> simp only [List.length_cons] <;> omega

/-- A pattern takes the same texts with its ESCAPE and without it exactly if the ESCAPE
gives no character that the pattern has. -/
theorem fits_iff_fallsInto_iff (ignoreCase : Bool) (escape : Option String) (pattern : List Char) :
    (∀ text, Fits ignoreCase escape pattern text ↔ FallsInto ignoreCase pattern text) ↔
      Idle escape pattern := by
  refine ⟨fun h => ?_, fun h _ => h.fits_iff⟩
  obtain ⟨c, signs, hc, hreads, hfits⟩ := (h _).mpr (fallsInto_shown pattern)
  refine ⟨c, hc, fun d he hd => ?_⟩
  subst he
  have hlt : signs.length < pattern.length := hreads.length_lt hd
  by_cases hrun : d = '%'
  · subst hrun
    have hlength := length_of_fitsSigns hreads hfits
    rw [shown, List.length_map] at hlength
    omega
  · -- No sign asks for a `%`, so the shortest text for the signs is too short for the pattern.
    have hitself : .itself '%' ∉ signs := fun hmem =>
      run_not_mem_shown (run_mem_of_itself hfits hmem)
    have hshort : FallsInto ignoreCase pattern (shortest signs) :=
      (h _).mp ⟨some d, signs, hc, hreads, fitsSigns_shortest signs⟩
    have hle := length_shortest_le (fitsSigns_written.mpr hshort)
    have hlength := hreads.length_shortest hrun hitself
    omega

end LogQuery.Predicate.Pattern
