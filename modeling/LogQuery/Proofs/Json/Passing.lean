import Mathlib.Data.List.DropRight
import Mathlib.Data.List.TakeWhile
import LogQuery.Json.Syntax
import LogQuery.Proofs.Json.Grammar

/-!
# Passing over JSON

`isText` accepts exactly the texts of the grammar, since what is passed over at the front of a
text is a part of the grammar, and every part is passed over before anything that cannot
belong to it.
-/

namespace LogQuery.Json

open LogQuery.Decimal

section Blanks

variable {b : List Char}

theorem exists_skipSpace (cs : List Char) : ∃ b, Blank b ∧ cs = b ++ skipSpace cs :=
  ⟨cs.takeWhile isSpace, fun _ hc => List.mem_takeWhile_imp hc,
    List.takeWhile_append_dropWhile.symm⟩

theorem skipSpace_append (hb : Blank b) (cs : List Char) : skipSpace (b ++ cs) = skipSpace cs :=
  List.dropWhile_append_of_pos hb

theorem skipSpace_skipSpace (cs : List Char) : skipSpace (skipSpace cs) = skipSpace cs :=
  List.dropWhile_idempotent ..

end Blanks

section Strings

variable {cs rest : List Char}

theorem stringBody_of_skip (h : skipStringChars cs = some rest) :
    ∃ body, StringBody body ∧ cs = body ++ '"' :: rest := by
  fun_induction skipStringChars cs with
  | case1 => cases h
  | case2 tail =>
    cases h
    exact ⟨[], .nil, rfl⟩
  | case3 a b c d tail hcode ih =>
    obtain ⟨body, hbody, rfl⟩ := ih h
    exact ⟨_, .numbered hcode hbody, rfl⟩
  | case4 => cases h
  | case5 c tail _ hc ih =>
    obtain ⟨body, hbody, rfl⟩ := ih h
    exact ⟨_, .escaped hc hbody, rfl⟩
  | case6 => cases h
  | case7 => cases h
  | case8 c tail hquote _ _ hplain ih =>
    obtain ⟨body, hbody, rfl⟩ := ih h
    simp only [Bool.or_eq_true, decide_eq_true_eq, beq_iff_eq, not_or, Nat.not_lt] at hplain
    exact ⟨_, .plain hplain.1 (fun he => hquote he) hplain.2 hbody, rfl⟩

theorem skipStringChars_plain {c : Char} (hcontrol : 32 ≤ c.toNat) (hquote : c ≠ '"')
    (hbackslash : c ≠ '\\') (more : List Char) :
    skipStringChars (c :: more) = skipStringChars more := by
  have hplain : ¬ (decide (c.toNat < 32) || c == '\\') = true := by
    simp [hbackslash]
    omega
  rw [skipStringChars, if_neg hplain]
  · exact fun heq => hquote heq
  · exact fun a b c d tail heq => absurd heq hbackslash
  · exact fun c tail heq => absurd heq hbackslash

theorem skipStringChars_escaped {c : Char} (hc : (simpleEscape? c).isSome = true)
    (more : List Char) : skipStringChars ('\\' :: c :: more) = skipStringChars more := by
  have hnumber : c ≠ 'u' := by
    rintro rfl
    cases hc
  rw [skipStringChars, if_pos hc]
  exact fun a b d e tail heq => absurd heq hnumber

theorem skipStringChars_body (h : StringBody cs) (rest : List Char) :
    skipStringChars (cs ++ '"' :: rest) = some rest := by
  induction h with
  | nil => rfl
  | plain hcontrol hquote hbackslash _ ih =>
    rw [List.cons_append, skipStringChars_plain hcontrol hquote hbackslash, ih]
  | escaped hc _ ih => rw [List.cons_append, List.cons_append, skipStringChars_escaped hc, ih]
  | numbered hcode _ ih => simp only [List.cons_append, skipStringChars, hcode, if_true, ih]

theorem skipString_quoted (h : StringBody cs) (rest : List Char) :
    skipString ('"' :: (cs ++ '"' :: rest)) = some rest :=
  skipStringChars_body h rest

theorem stringBody_of_skipString (h : skipString cs = some rest) :
    ∃ body, StringBody body ∧ cs = '"' :: (body ++ '"' :: rest) := by
  unfold skipString at h
  split at h
  · obtain ⟨body, hbody, rfl⟩ := stringBody_of_skip h
    exact ⟨body, hbody, rfl⟩
  · cases h

end Strings

section Numbers

variable {cs rest : List Char}

/-- What cannot go on a number. -/
def EndsNumber (rest : List Char) : Prop :=
  ∀ c ∈ rest.head?, c.isDigit = false ∧ c ≠ '.' ∧ c ≠ 'e' ∧ c ≠ 'E'

theorem isDigits_spanDigits (h : (spanDigits cs).1.isEmpty = false) : IsDigits (spanDigits cs).1 where
  ne_nil := List.isEmpty_eq_false_iff.mp h
  isDigit d hd := by
    rw [spanDigits, List.span_eq_takeWhile_dropWhile] at hd
    exact List.mem_takeWhile_imp hd

theorem spanDigits_split (cs : List Char) : cs = (spanDigits cs).1 ++ (spanDigits cs).2 := by
  rw [spanDigits, List.span_eq_takeWhile_dropWhile, List.takeWhile_append_dropWhile]

theorem fractionPart_of_read {f : Option (List Char)} (h : readFraction cs = some (f, rest)) :
    ∃ fraction, FractionPart fraction ∧ cs = fraction ++ rest := by
  unfold readFraction at h
  split at h
  next tail =>
    simp only at h
    split at h
    · cases h
    next hne =>
      cases h
      have hds := isDigits_spanDigits (Bool.eq_false_iff.mpr hne)
      exact ⟨_, .present hds, congrArg ('.' :: ·) (spanDigits_split tail)⟩
  · cases h
    exact ⟨[], .absent, rfl⟩

theorem spanSign_split (cs : List Char) : ∃ sign, (sign = [] ∨ sign = ['+'] ∨ sign = ['-']) ∧
    cs = sign ++ (spanSign cs).2 := by
  unfold spanSign
  split
  · exact ⟨['-'], by simp, rfl⟩
  · exact ⟨['+'], by simp, rfl⟩
  · exact ⟨[], by simp, rfl⟩

theorem exponentPart_of_read {e : Option (Bool × List Char)}
    (h : readExponent cs = some (e, rest)) :
    ∃ exponent, ExponentPart exponent ∧ cs = exponent ++ rest := by
  unfold readExponent at h
  split at h
  · cases h
    exact ⟨[], .absent, rfl⟩
  next c tail =>
    split at h
    next hc =>
      simp only at h
      split at h
      · cases h
      next hne =>
        cases h
        obtain ⟨sign, hsign, htail⟩ := spanSign_split tail
        have hds := isDigits_spanDigits (Bool.eq_false_iff.mpr hne)
        refine ⟨_, .present (by simpa using hc) hsign hds, ?_⟩
        rw [List.cons_append, List.append_assoc, ← spanDigits_split, ← htail]
    · cases h
      exact ⟨[], .absent, rfl⟩

theorem unsignedNumber_of_read {t : NumberText} {negative : Bool}
    (h : NumberText.readUnsigned negative cs = some (t, rest)) :
    ∃ number, UnsignedNumber number ∧ cs = number ++ rest := by
  unfold NumberText.readUnsigned at h
  simp only at h
  split at h
  · cases h
  next hlead =>
    simp only [Bool.or_eq_true, Bool.and_eq_true, decide_eq_true_eq, beq_iff_eq, not_or, not_and,
      Nat.not_lt] at hlead
    obtain ⟨⟨f, afterPoint⟩, hfraction, h⟩ := Option.bind_eq_some_iff.mp h
    obtain ⟨⟨e, after⟩, hexponent, h⟩ := Option.map_eq_some_iff.mp h
    cases h
    obtain ⟨fraction, hf, hpoint⟩ := fractionPart_of_read hfraction
    obtain ⟨exponent, he, hend⟩ := exponentPart_of_read hexponent
    have hds := isDigits_spanDigits (Bool.eq_false_iff.mpr hlead.1)
    have hone (hzero : (spanDigits cs).1.head? = some '0') : (spanDigits cs).1.length = 1 :=
      Nat.le_antisymm (hlead.2 hzero) (List.length_pos_of_ne_nil hds.ne_nil)
    refine ⟨_, .mk hds hone hf he, ?_⟩
    rw [List.append_assoc, List.append_assoc, ← hend, ← hpoint]
    exact spanDigits_split cs

theorem number_of_read {t : NumberText} (h : readNumberText cs = some (t, rest)) :
    ∃ number, Grammar .value number ∧ cs = number ++ rest := by
  have hcases : (∃ tail, cs = '-' :: tail) ∨
      readNumberText cs = NumberText.readUnsigned false cs := by
    cases cs with
    | nil => exact .inr rfl
    | cons c tail =>
      by_cases hc : c = '-'
      · exact .inl ⟨tail, by rw [hc]⟩
      · refine .inr ?_
        rw [readNumberText]
        · rfl
        · exact fun ds heq => hc (List.head_eq_of_cons_eq heq)
  rcases hcases with ⟨tail, rfl⟩ | hunsigned
  · obtain ⟨number, hnumber, rfl⟩ := unsignedNumber_of_read h
    exact ⟨_, .negative hnumber, rfl⟩
  · obtain ⟨number, hnumber, rfl⟩ := unsignedNumber_of_read (hunsigned ▸ h)
    exact ⟨_, .unsigned hnumber, rfl⟩

theorem FractionPart.read {f : List Char} (h : FractionPart f)
    (hrest : ∀ c ∈ rest.head?, c.isDigit = false ∧ c ≠ '.') :
    ∃ fraction, readFraction (f ++ rest) = some (fraction, rest) := by
  cases h with
  | absent =>
    cases rest with
    | nil => exact ⟨_, rfl⟩
    | cons c rest =>
      have hc : c ≠ '.' := (hrest c rfl).2
      refine ⟨none, ?_⟩
      rw [List.nil_append, readFraction]
      exact fun ds heq => hc (List.head_eq_of_cons_eq heq)
  | @present ds hds =>
    have hspan := spanDigits_append hds.isDigit fun c hc => (hrest c hc).1
    have hne : ds.isEmpty = false := List.isEmpty_eq_false_iff.mpr hds.ne_nil
    exact ⟨some ds, by simp [readFraction, hspan, hne]⟩

theorem ExponentPart.read {e : List Char} (h : ExponentPart e) (hrest : EndsNumber rest) :
    ∃ exponent, readExponent (e ++ rest) = some (exponent, rest) := by
  cases h with
  | absent =>
    cases rest with
    | nil => exact ⟨_, rfl⟩
    | cons c rest =>
      obtain ⟨-, -, hlower, hupper⟩ := hrest c rfl
      exact ⟨none, by simp [readExponent, hlower, hupper]⟩
  | @present letter sign ds hletter hsign hds =>
    have hspan := spanDigits_append hds.isDigit fun c hc => (hrest c hc).1
    have hne : ds.isEmpty = false := List.isEmpty_eq_false_iff.mpr hds.ne_nil
    have hafter : (spanSign (sign ++ (ds ++ rest))).2 = ds ++ rest := by
      rcases hsign with rfl | rfl | rfl
      · obtain ⟨d, tail, rfl⟩ := List.exists_cons_of_ne_nil hds.ne_nil
        have hd : d.isDigit = true := hds.isDigit d List.mem_cons_self
        rw [List.nil_append, List.cons_append, spanSign]
        all_goals
          rintro _ heq
          rw [List.head_eq_of_cons_eq heq] at hd
          cases hd
      · rfl
      · rfl
    refine ⟨some ((spanSign (sign ++ (ds ++ rest))).1, ds), ?_⟩
    rcases hletter with rfl | rfl <;> simp [readExponent, hafter, hspan, hne]

theorem UnsignedNumber.read {number : List Char} (h : UnsignedNumber number)
    (hrest : EndsNumber rest) (negative : Bool) :
    ∃ t, NumberText.readUnsigned negative (number ++ rest) = some (t, rest) := by
  obtain ⟨hds, hlead, hfraction, hexponent⟩ := h
  next ds fraction exponent =>
  have hpoint : ∀ c ∈ (exponent ++ rest).head?, c.isDigit = false ∧ c ≠ '.' := by
    cases hexponent with
    | absent => exact fun c hc => ⟨(hrest c hc).1, (hrest c hc).2.1⟩
    | present hletter =>
      rintro c ⟨⟩
      rcases hletter with rfl | rfl <;> decide
  have hdigit : ∀ c ∈ (fraction ++ (exponent ++ rest)).head?, c.isDigit = false := by
    cases hfraction with
    | absent => exact fun c hc => (hpoint c hc).1
    | present =>
      rintro c ⟨⟩
      decide
  obtain ⟨f, hf⟩ := hfraction.read hpoint
  obtain ⟨e, he⟩ := hexponent.read hrest
  have hspan := spanDigits_append hds.isDigit hdigit
  have hok : (ds.isEmpty || (ds.head? == some '0' && ds.length > 1)) = false := by
    have hne : ds.isEmpty = false := List.isEmpty_eq_false_iff.mpr hds.ne_nil
    by_cases hzero : ds.head? = some '0'
    · simp [hne, hlead hzero]
    · simp [hne, hzero]
  refine ⟨⟨negative, ds, f, e⟩, ?_⟩
  rw [List.append_assoc, List.append_assoc]
  simp only [NumberText.readUnsigned, hspan, hok, hf, he, Option.bind_some, Option.map_some,
    Bool.false_eq_true, ↓reduceIte]

end Numbers

section Passing

variable {fuel : Nat} {cs rest : List Char}

theorem skipValue_number {c : Char} (hc : c.isDigit = true ∨ c = '-') (cs : List Char) :
    skipValue (fuel + 1) (c :: cs) = (readNumberText (c :: cs)).map Prod.snd := by
  have hother : ∀ d : Char, d.isDigit = false → d ≠ '-' → c ≠ d := by
    rintro d hdigit hsign rfl
    rcases hc with h | h
    · rw [hdigit] at h
      cases h
    · exact hsign h
  rw [skipValue]
  all_goals
    intro tail heq
    exact absurd (List.head_eq_of_cons_eq heq) (hother _ (by decide) (by decide))

/-- What is passed over is a part of the grammar. -/
structure PassesOver (fuel : Nat) : Prop where
  value : ∀ {cs rest}, skipValue fuel cs = some rest →
    ∃ passed, Grammar .value passed ∧ cs = passed ++ rest
  items : ∀ {cs rest}, skipItems fuel cs = some rest →
    ∃ passed, Grammar .elements passed ∧ cs = passed ++ ']' :: rest
  members : ∀ {cs rest}, skipMembers fuel cs = some rest →
    ∃ passed, Grammar .members passed ∧ cs = passed ++ '\x7d' :: rest

theorem afterWord?_eq {word : List Char} (h : afterWord? word cs = some rest) :
    cs = word ++ rest := by
  unfold afterWord? at h
  split at h
  next hprefix =>
    cases h
    exact (List.prefix_iff_eq_append.mp (List.isPrefixOf_iff_prefix.mp hprefix)).symm
  next => cases h

theorem skipValue_step (ih : PassesOver fuel) (h : skipValue (fuel + 1) cs = some rest) :
    ∃ passed, Grammar .value passed ∧ cs = passed ++ rest := by
  unfold skipValue at h
  split at h
  · obtain ⟨body, hbody, rfl⟩ := stringBody_of_skip h
    exact ⟨_, .string hbody, by simp⟩
  next cs =>
    obtain ⟨b, hb, hcs⟩ := exists_skipSpace cs
    split at h
    next heq =>
      cases h
      rw [heq] at hcs
      exact ⟨_, .emptyArray hb, by simp [hcs]⟩
    next =>
      obtain ⟨passed, hpassed, heq⟩ := ih.items h
      rw [heq] at hcs
      exact ⟨_, .array (hpassed.blank_elements hb), by simp [hcs]⟩
  next cs =>
    obtain ⟨b, hb, hcs⟩ := exists_skipSpace cs
    split at h
    next heq =>
      cases h
      rw [heq] at hcs
      exact ⟨_, .emptyObject hb, by simp [hcs]⟩
    next =>
      obtain ⟨passed, hpassed, heq⟩ := ih.members h
      rw [heq] at hcs
      exact ⟨_, .object (hpassed.blank_members hb), by simp [hcs]⟩
  · exact ⟨_, .nullWord, afterWord?_eq h⟩
  · exact ⟨_, .trueWord, afterWord?_eq h⟩
  · exact ⟨_, .falseWord, afterWord?_eq h⟩
  · obtain ⟨⟨t, after⟩, ht, rfl⟩ := Option.map_eq_some_iff.mp h
    exact number_of_read ht

/-- A value that is passed over with the blanks around it is an element. -/
theorem element_of_skip (ih : PassesOver fuel) (h : skipValue fuel (skipSpace cs) = some rest) :
    ∃ passed, Grammar .element passed ∧ cs = passed ++ skipSpace rest := by
  obtain ⟨before, hbefore, hcs⟩ := exists_skipSpace cs
  obtain ⟨after, hafter, hrest⟩ := exists_skipSpace rest
  obtain ⟨passed, hpassed, heq⟩ := ih.value h
  refine ⟨_, .element hbefore hpassed hafter, ?_⟩
  rw [List.append_assoc, List.append_assoc, ← hrest, ← heq]
  exact hcs

theorem skipItems_step (ih : PassesOver fuel) (h : skipItems (fuel + 1) cs = some rest) :
    ∃ passed, Grammar .elements passed ∧ cs = passed ++ ']' :: rest := by
  rw [skipItems] at h
  split at h
  · cases h
  next after hafter =>
    obtain ⟨passed, hpassed, hcs⟩ := element_of_skip ih hafter
    split at h
    next heq =>
      cases h
      exact ⟨_, .lastElement hpassed, by rw [hcs, heq]⟩
    next heq =>
      obtain ⟨more, hmore, rfl⟩ := ih.items h
      exact ⟨_, .nextElement hpassed hmore, by simp [hcs, heq]⟩
    next => cases h

theorem skipMembers_step (ih : PassesOver fuel) (h : skipMembers (fuel + 1) cs = some rest) :
    ∃ passed, Grammar .members passed ∧ cs = passed ++ '\x7d' :: rest := by
  rw [skipMembers] at h
  split at h
  · cases h
  next afterKey hkey =>
    obtain ⟨before, hbefore, hcs⟩ := exists_skipSpace cs
    obtain ⟨key, hbody, hquoted⟩ := stringBody_of_skipString hkey
    obtain ⟨blank, hblank, hcolon⟩ := exists_skipSpace afterKey
    split at h
    next heq =>
      split at h
      · cases h
      next after hafter =>
        obtain ⟨passed, hpassed, hvalue⟩ := element_of_skip ih hafter
        have hmember := Grammar.member hbefore hbody hblank hpassed
        rw [heq, hvalue] at hcolon
        rw [hquoted, hcolon] at hcs
        split at h
        next hend =>
          cases h
          exact ⟨_, .lastMember hmember, by simp [hcs, hend]⟩
        next hend =>
          obtain ⟨more, hmore, rfl⟩ := ih.members h
          exact ⟨_, .nextMember hmember hmore, by simp [hcs, hend]⟩
        next => cases h
    next => cases h

theorem passesOver (fuel : Nat) : PassesOver fuel := by
  induction fuel with
  | zero => exact ⟨nofun, nofun, nofun⟩
  | succ fuel ih => exact ⟨skipValue_step ih, skipItems_step ih, skipMembers_step ih⟩

end Passing

section Parts

variable {fuel : Nat} {p : Part} {cs rest : List Char}

theorem Grammar.skipSpace_value (h : Grammar .value cs) (rest : List Char) :
    skipSpace (cs ++ rest) = cs ++ rest := by
  obtain ⟨c, tail, rfl, hspace, -⟩ := h.value_cons
  exact skipSpace_cons hspace _

theorem Grammar.skipSpace_elements (h : Grammar .elements cs) (rest tail : List Char) :
    skipSpace (cs ++ rest) ≠ ']' :: tail := by
  have helement {e : List Char} (h : Grammar .element e) (rest : List Char) :
      skipSpace (e ++ rest) ≠ ']' :: tail := by
    cases h with
    | @element b v a hb hv ha =>
      obtain ⟨c, tail, rfl, hspace, hc, -⟩ := hv.value_cons
      rw [List.append_assoc, skipSpace_append hb, List.cons_append, List.cons_append,
        skipSpace_cons hspace]
      exact fun heq => hc (List.head_eq_of_cons_eq heq)
  cases h with
  | lastElement h => exact helement h rest
  | nextElement h =>
    rw [List.append_assoc]
    exact helement h _

theorem Grammar.skipSpace_members (h : Grammar .members cs) (rest tail : List Char) :
    skipSpace (cs ++ rest) ≠ '\x7d' :: tail := by
  have hmember {m : List Char} (h : Grammar .member m) (rest : List Char) :
      skipSpace (m ++ rest) ≠ '\x7d' :: tail := by
    cases h with
    | member hb =>
      rw [List.append_assoc, skipSpace_append hb, List.cons_append, skipSpace_cons rfl]
      exact fun heq => absurd (List.head_eq_of_cons_eq heq) (by decide)
  cases h with
  | lastMember h => exact hmember h rest
  | nextMember h =>
    rw [List.append_assoc]
    exact hmember h _

theorem skipSpace_of_endsValue (hrest : EndsValue rest) : skipSpace rest = rest := by
  cases rest with
  | nil => rfl
  | cons c rest =>
    apply skipSpace_cons
    rcases hrest c rfl with rfl | rfl | rfl <;> rfl

theorem endsNumber_blank {a : List Char} (ha : Blank a) (hrest : EndsValue rest) :
    EndsNumber (a ++ rest) := by
  cases a with
  | nil =>
    intro c hc
    rcases hrest c hc with rfl | rfl | rfl <;> decide
  | cons d a =>
    rintro c ⟨⟩
    have hspace := ha d List.mem_cons_self
    simp only [isSpace, Bool.or_eq_true, beq_iff_eq] at hspace
    rcases hspace with ((rfl | rfl) | rfl) | rfl <;> decide

theorem skipItems_skipSpace (fuel : Nat) (cs : List Char) :
    skipItems fuel (skipSpace cs) = skipItems fuel cs := by
  cases fuel with
  | zero => rfl
  | succ fuel => rw [skipItems, skipItems, skipSpace_skipSpace]

theorem skipMembers_skipSpace (fuel : Nat) (cs : List Char) :
    skipMembers fuel (skipSpace cs) = skipMembers fuel cs := by
  cases fuel with
  | zero => rfl
  | succ fuel => rw [skipMembers, skipMembers, skipSpace_skipSpace]

theorem skipValue_items (hcs : ∀ tail, skipSpace cs ≠ ']' :: tail) :
    skipValue (fuel + 1) ('[' :: cs) = skipItems fuel cs := by
  rw [skipValue]
  split
  next heq => exact absurd heq (hcs _)
  next => exact skipItems_skipSpace fuel cs

theorem skipValue_members (hcs : ∀ tail, skipSpace cs ≠ '\x7d' :: tail) :
    skipValue (fuel + 1) ('\x7b' :: cs) = skipMembers fuel cs := by
  rw [skipValue]
  split
  next heq => exact absurd heq (hcs _)
  next => exact skipMembers_skipSpace fuel cs

/-- A part is passed over where it stands. A character pays for two steps: the one that passes
over a value, and the one that goes on in the list the value is in. -/
def PassedOver : Part → List Char → Prop
  | .value, cs => ∀ {fuel rest}, 2 * cs.length ≤ fuel → EndsNumber rest →
      skipValue fuel (cs ++ rest) = some rest
  | .element, cs => ∀ {fuel rest}, 2 * cs.length ≤ fuel → EndsValue rest →
      ∃ after, skipValue fuel (skipSpace (cs ++ rest)) = some after ∧ skipSpace after = rest
  | .elements, cs => ∀ {fuel rest}, 2 * cs.length + 1 ≤ fuel →
      skipItems fuel (cs ++ ']' :: rest) = some rest
  | .member, cs => ∀ {fuel rest}, 2 * cs.length ≤ fuel → EndsValue rest →
      ∃ afterKey tail after, skipString (skipSpace (cs ++ rest)) = some afterKey ∧
        skipSpace afterKey = ':' :: tail ∧ skipValue fuel (skipSpace tail) = some after ∧
        skipSpace after = rest
  | .members, cs => ∀ {fuel rest}, 2 * cs.length + 1 ≤ fuel →
      skipMembers fuel (cs ++ '\x7d' :: rest) = some rest

/-- There is fuel for the first character of a value. -/
theorem passedOver_of_succ (hne : cs ≠ []) (h : ∀ {fuel rest}, 2 * cs.length ≤ fuel + 1 →
    EndsNumber rest → skipValue (fuel + 1) (cs ++ rest) = some rest) : PassedOver .value cs := by
  intro fuel rest hfuel hrest
  have hpos := List.length_pos_of_ne_nil hne
  obtain ⟨fuel, rfl⟩ := Nat.exists_eq_succ_of_ne_zero (show fuel ≠ 0 by omega)
  exact h hfuel hrest

theorem passedOver_unsigned (h : UnsignedNumber cs) : PassedOver .value cs := by
  obtain ⟨d, ds, rfl, hd⟩ := h.exists_cons
  apply passedOver_of_succ (List.cons_ne_nil d ds)
  intro fuel rest _ hrest
  obtain ⟨t, ht⟩ := h.read hrest false
  rw [List.cons_append] at ht ⊢
  rw [skipValue_number (.inl hd), NumberText.readNumberText_digit hd, ht]
  rfl

theorem passedOver_negative (h : UnsignedNumber cs) : PassedOver .value ('-' :: cs) := by
  apply passedOver_of_succ (List.cons_ne_nil _ cs)
  intro fuel rest _ hrest
  obtain ⟨t, ht⟩ := h.read hrest true
  rw [List.cons_append, skipValue_number (.inr rfl), NumberText.readNumberText_minus, ht]
  rfl

theorem passedOver_element {b v a : List Char} (hb : Blank b) (hv : Grammar .value v)
    (h : PassedOver .value v) (ha : Blank a) : PassedOver .element (b ++ (v ++ a)) := by
  intro fuel rest hfuel hrest
  rw [List.length_append, List.length_append] at hfuel
  refine ⟨a ++ rest, ?_, ?_⟩
  · rw [List.append_assoc, List.append_assoc, skipSpace_append hb, hv.skipSpace_value]
    exact h (by omega) (endsNumber_blank ha hrest)
  · rw [skipSpace_append ha, skipSpace_of_endsValue hrest]

theorem passedOver_member {b key a e : List Char} (hb : Blank b) (hkey : StringBody key)
    (ha : Blank a) (h : PassedOver .element e) :
    PassedOver .member (b ++ '"' :: (key ++ '"' :: (a ++ ':' :: e))) := by
  intro fuel rest hfuel hrest
  simp only [List.length_append, List.length_cons] at hfuel
  obtain ⟨after, hskip, hafter⟩ := h (show 2 * e.length ≤ fuel by omega) hrest
  refine ⟨a ++ ':' :: (e ++ rest), e ++ rest, after, ?_, ?_, hskip, hafter⟩
  · simp only [List.append_assoc, List.cons_append]
    rw [skipSpace_append hb, skipSpace_cons rfl, skipString_quoted hkey]
  · rw [skipSpace_append ha, skipSpace_cons rfl]

theorem skipItems_last (h : PassedOver .element cs) (hfuel : 2 * cs.length ≤ fuel)
    (rest : List Char) : skipItems (fuel + 1) (cs ++ ']' :: rest) = some rest := by
  obtain ⟨after, hskip, hafter⟩ := h hfuel (endsValue_cons (c := ']') (by simp) rest)
  rw [skipItems, hskip]
  simp only [hafter]

theorem skipItems_next (h : PassedOver .element cs) (hfuel : 2 * cs.length ≤ fuel)
    (rest : List Char) : skipItems (fuel + 1) (cs ++ ',' :: rest) = skipItems fuel rest := by
  obtain ⟨after, hskip, hafter⟩ := h hfuel (endsValue_cons (c := ',') (by simp) rest)
  rw [skipItems, hskip]
  simp only [hafter]

theorem skipMembers_last (h : PassedOver .member cs) (hfuel : 2 * cs.length ≤ fuel)
    (rest : List Char) : skipMembers (fuel + 1) (cs ++ '\x7d' :: rest) = some rest := by
  obtain ⟨afterKey, tail, after, hkey, hcolon, hskip, hafter⟩ :=
    h hfuel (endsValue_cons (c := '\x7d') (by simp) rest)
  rw [skipMembers, hkey]
  simp only [hcolon, hskip, hafter]

theorem skipMembers_next (h : PassedOver .member cs) (hfuel : 2 * cs.length ≤ fuel)
    (rest : List Char) : skipMembers (fuel + 1) (cs ++ ',' :: rest) = skipMembers fuel rest := by
  obtain ⟨afterKey, tail, after, hkey, hcolon, hskip, hafter⟩ :=
    h hfuel (endsValue_cons (c := ',') (by simp) rest)
  rw [skipMembers, hkey]
  simp only [hcolon, hskip, hafter]

theorem passedOver (h : Grammar p cs) : PassedOver p cs := by
  induction h with
  | nullWord | trueWord | falseWord =>
    apply passedOver_of_succ (List.cons_ne_nil _ _)
    intro fuel rest _ _
    rfl
  | unsigned h => exact passedOver_unsigned h
  | negative h => exact passedOver_negative h
  | string h =>
    apply passedOver_of_succ (List.cons_ne_nil _ _)
    intro fuel rest _ _
    rw [List.cons_append, List.append_assoc]
    exact skipStringChars_body h rest
  | emptyArray hb =>
    apply passedOver_of_succ (List.cons_ne_nil _ _)
    intro fuel rest _ _
    rw [List.cons_append, List.append_assoc, skipValue, skipSpace_append hb]
    rfl
  | emptyObject hb =>
    apply passedOver_of_succ (List.cons_ne_nil _ _)
    intro fuel rest _ _
    rw [List.cons_append, List.append_assoc, skipValue, skipSpace_append hb]
    rfl
  | @array cs h ih =>
    apply passedOver_of_succ (List.cons_ne_nil _ _)
    intro fuel rest hfuel _
    rw [List.length_cons, List.length_append, List.length_singleton] at hfuel
    rw [List.cons_append, List.append_assoc, skipValue_items (h.skipSpace_elements _)]
    exact ih (by omega)
  | @object cs h ih =>
    apply passedOver_of_succ (List.cons_ne_nil _ _)
    intro fuel rest hfuel _
    rw [List.length_cons, List.length_append, List.length_singleton] at hfuel
    rw [List.cons_append, List.append_assoc, skipValue_members (h.skipSpace_members _)]
    exact ih (by omega)
  | element hb h ha ih => exact passedOver_element hb h ih ha
  | member hb hkey ha _ ih => exact passedOver_member hb hkey ha ih
  | lastElement _ ih =>
    intro fuel rest hfuel
    obtain ⟨fuel, rfl⟩ := Nat.exists_eq_succ_of_ne_zero (Nat.ne_zero_of_lt hfuel)
    exact skipItems_last ih (Nat.le_of_succ_le_succ hfuel) rest
  | @nextElement e more _ _ ih ihmore =>
    intro fuel rest hfuel
    rw [List.length_append, List.length_cons] at hfuel
    obtain ⟨fuel, rfl⟩ := Nat.exists_eq_succ_of_ne_zero (Nat.ne_zero_of_lt hfuel)
    rw [List.append_assoc, List.cons_append, skipItems_next ih (by omega)]
    exact ihmore (by omega)
  | lastMember _ ih =>
    intro fuel rest hfuel
    obtain ⟨fuel, rfl⟩ := Nat.exists_eq_succ_of_ne_zero (Nat.ne_zero_of_lt hfuel)
    exact skipMembers_last ih (Nat.le_of_succ_le_succ hfuel) rest
  | @nextMember m more _ _ ih ihmore =>
    intro fuel rest hfuel
    rw [List.length_append, List.length_cons] at hfuel
    obtain ⟨fuel, rfl⟩ := Nat.exists_eq_succ_of_ne_zero (Nat.ne_zero_of_lt hfuel)
    rw [List.append_assoc, List.cons_append, skipMembers_next ih (by omega)]
    exact ihmore (by omega)

/-- A text is accepted exactly if it is of the grammar. -/
theorem isText_iff : isText cs = true ↔ Grammar .element cs := by
  constructor
  · intro h
    rw [isText] at h
    split at h
    next rest hskip =>
      obtain ⟨passed, hpassed, heq⟩ := element_of_skip (passesOver _) hskip
      rw [List.isEmpty_iff.mp h, List.append_nil] at heq
      rwa [heq]
    next => cases h
  · intro h
    obtain ⟨after, hskip, hafter⟩ :=
      passedOver h (show 2 * cs.length ≤ 2 * cs.length + 2 by omega) endsValue_nil
    rw [List.append_nil] at hskip
    rw [isText, hskip]
    simp only [hafter, List.isEmpty_nil]

end Parts

end LogQuery.Json
