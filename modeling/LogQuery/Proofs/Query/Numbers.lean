import LogQuery.Proofs.Json.Numbers
import LogQuery.Proofs.Query.Joining
import LogQuery.Sql.Lexer

/-!
# Marked numbers

The point and the signs of a number look like those of paths and names. The point is kept,
since the word before it is all digits, and so is a plus. The minus of an exponent is not:
the word before it ends in `e`, which is no digit, so it is taken for a hyphen and the grammar
does not see the number. All other numbers outside literals reach the grammar as they are.
-/

namespace LogQuery.Query

open Piece Json

/-- A point and digits, or nothing. -/
inductive IsFraction : List Char → Prop
  | none : IsFraction []
  | point {ds : List Char} (hds : IsDigits ds) : IsFraction ('.' :: ds)

/-- An `e`, a sign or none and digits, or nothing. -/
inductive IsExponent : List Char → Prop
  | none : IsExponent []
  | unsigned {e : Char} {ds : List Char} (he : e = 'e' ∨ e = 'E') (hds : IsDigits ds) :
    IsExponent (e :: ds)
  | signed {e s : Char} {ds : List Char} (he : e = 'e' ∨ e = 'E') (hs : s = '+' ∨ s = '-')
    (hds : IsDigits ds) : IsExponent (e :: s :: ds)

/-- A number without a sign before it. -/
inductive IsNumber : List Char → Prop
  | mk {whole fraction exponent : List Char} (hwhole : IsDigits whole)
    (hfraction : IsFraction fraction) (hexponent : IsExponent exponent) :
    IsNumber (whole ++ (fraction ++ exponent))

/-- A text with the marker of a hyphen for every minus. -/
def dashed (cs : List Char) : List Char :=
  cs.flatMap fun c => if c = '-' then Marker.dash.text else [c]

variable {n cs ds fraction exponent rest after : List Char} {c e : Char} {p : Position}
  {before : Option Char}

theorem dashed_append (cs ds : List Char) : dashed (cs ++ ds) = dashed cs ++ dashed ds :=
  List.flatMap_append

theorem dashed_eq_self (h : '-' ∉ cs) : dashed cs = cs := by
  induction cs with
  | nil => rfl
  | cons c cs ih =>
    rw [List.mem_cons, not_or] at h
    rw [dashed, List.flatMap_cons, if_neg (Ne.symm h.1), ← dashed, ih h.2, List.singleton_append]

theorem dashed_eq_self_iff : dashed cs = cs ↔ '-' ∉ cs := by
  refine ⟨fun h hmem => ?_, dashed_eq_self⟩
  rw [← h, dashed, List.mem_flatMap] at hmem
  obtain ⟨c, -, hc⟩ := hmem
  split at hc
  · exact absurd hc (by decide)
  · next hne => exact hne (List.mem_singleton.mp hc).symm

theorem isWordChar_of_isDigit (hc : c.isDigit = true) : isWordChar c = true := by
  have hnarrow : c.toNat < 0x80 := by
    have h := Text.isDigit_iff.mp hc
    omega
  simp [isWordChar, Text.isLetterOrNumber, Text.isNumeric, hnarrow, hc]

theorem mark_facts (he : e = 'e' ∨ e = 'E') : isWordChar e = true ∧ e.isDigit = false ∧ '-' ≠ e := by
  rcases he with rfl | rfl <;> decide

theorem not_mem_digits (hds : IsDigits ds) : '-' ∉ ds := fun h =>
  absurd (hds.isDigit '-' h) (by decide)

theorem not_mem_fraction (hfraction : IsFraction fraction) : '-' ∉ fraction := by
  cases hfraction with
  | none => nofun
  | point hds =>
    rw [List.mem_cons, not_or]
    exact ⟨by decide, not_mem_digits hds⟩

theorem head?_any_digits {q : Char → Bool} (hq : ∀ c, c.isDigit = true → q c = true)
    (hds : IsDigits ds) (cs : List Char) : (ds ++ cs).head?.any q = true := by
  obtain ⟨d, ds', rfl⟩ := List.exists_cons_of_ne_nil hds.ne_nil
  exact hq d (hds.isDigit d List.mem_cons_self)

/-! ## Marking -/

/-- A word that begins with a digit is no keyword. -/
theorem markWord_digit (hc : c.isDigit = true) (cs : List Char) (segment : Bool) :
    markWord (c :: cs) segment = c :: cs := by
  have hupper : c.toUpper = c := by
    refine dif_neg fun ⟨hlow, _⟩ => ?_
    have hdigit := Text.isDigit_iff.mp hc
    have hletter : 97 ≤ c.toNat := hlow
    omega
  refine if_neg fun h => ?_
  rw [Bool.and_eq_true, beq_iff_eq] at h
  have hhead : c.toUpper = 'D' := (List.cons.inj h.2).1
  rw [hupper] at hhead
  rw [hhead] at hc
  exact absurd hc (by decide)

/-- A word that begins with digits, cut off and marked. -/
theorem markPieces_word (p : Position) (before : Option Char) (hds : IsDigits ds) {w : List Char}
    (hw : ∀ c ∈ w, isWordChar c = true) (cs : List Char) (hcs : cs.head?.any isWordChar = false) :
    ∃ p', p'.afterDigits = w.all Char.isDigit ∧ markPieces p before (cut (ds ++ w ++ cs)) =
      ds ++ w ++ markPieces p' (ds ++ w).getLast? (cut cs) := by
  obtain ⟨d, ds', rfl⟩ := List.exists_cons_of_ne_nil hds.ne_nil
  have hword : ∀ c ∈ d :: ds' ++ w, isWordChar c = true :=
    List.forall_mem_append.mpr ⟨fun c hc => isWordChar_of_isDigit (hds.isDigit c hc), hw⟩
  let segment := before == some '.' || firstChar (cut cs) == some '.'
  refine ⟨p.afterWord (d :: ds' ++ w) segment, ?_, ?_⟩
  · have hall : (d :: ds').all Char.isDigit = true := List.all_eq_true.mpr hds.isDigit
    rw [Position.afterWord, List.all_append, hall, Bool.true_and]
  · rw [cut_word (by simp) hword hcs, markPieces, List.cons_append,
      markWord_digit (hds.isDigit d List.mem_cons_self)]

/-- Digits and nothing else, cut off and marked. -/
theorem markPieces_digits (p : Position) (before : Option Char) (hds : IsDigits ds) (cs : List Char)
    (hcs : cs.head?.any isWordChar = false) : ∃ p', p'.afterDigits = true ∧
      markPieces p before (cut (ds ++ cs)) = ds ++ markPieces p' ds.getLast? (cut cs) := by
  obtain ⟨p', hp', h⟩ := markPieces_word p before hds (List.forall_mem_nil _) cs hcs
  rw [List.append_nil] at h
  exact ⟨p', hp', h⟩

theorem markSign_point (hp : p.afterDigits = true) (hcs : cs.head?.any Char.isDigit = true) :
    markSign p before '.' cs.head? = ['.'] := by
  simp [markSign, hp, hcs]

/-- Behind an `e` a minus is taken for a hyphen. -/
theorem markSign_exponent {s : Char} (hs : s = '+' ∨ s = '-') (hp : p.afterDigits = false)
    (hbefore : before.any isWordChar = true) (hcs : cs.head?.any isWordChar = true) :
    markSign p before s cs.head? = dashed [s] := by
  rcases hs with rfl | rfl
  · exact markSign_of_settled ⟨by decide, by decide, by decide⟩ p before cs.head?
  · simp [markSign, dashed, hp, hbefore, hcs]

theorem markPieces_signed {s : Char} {ds' : List Char} (hds : IsDigits ds) (he : e = 'e' ∨ e = 'E')
    (hs : s = '+' ∨ s = '-') (hds' : IsDigits ds') (hafter : after.head?.any isWordChar = false) :
    ∃ p' before', markPieces p before (cut (ds ++ (e :: s :: ds' ++ after))) =
      ds ++ (dashed (e :: s :: ds') ++ markPieces p' before' (cut after)) := by
  obtain ⟨hword, hdigit, hminus⟩ := mark_facts he
  have hsign : isQuote s = false ∧ isWordChar s = false := by
    rcases hs with rfl | rfl <;> decide
  have hdashed : dashed (e :: s :: ds') = [e] ++ (dashed [s] ++ ds') := by
    have hsplit : e :: s :: ds' = [e] ++ ([s] ++ ds') := rfl
    rw [hsplit, dashed_append, dashed_append, dashed_eq_self (by simpa using hminus),
      dashed_eq_self (not_mem_digits hds')]
  obtain ⟨p₁, hp₁, hfirst⟩ := markPieces_word p before hds (List.forall_mem_singleton.mpr hword)
    (s :: (ds' ++ after)) hsign.2
  obtain ⟨p', -, hlast⟩ := markPieces_digits p₁ (some s) hds' after hafter
  have hmarked : markSign p₁ (ds ++ [e]).getLast? s (ds' ++ after).head? = dashed [s] :=
    markSign_exponent hs (by simpa [hdigit] using hp₁) (by simp [hword])
      (head?_any_digits (fun _ => isWordChar_of_isDigit) hds' after)
  refine ⟨p', ds'.getLast?, ?_⟩
  calc markPieces p before (cut (ds ++ (e :: s :: ds' ++ after)))
      = ds ++ [e] ++ markPieces p₁ (ds ++ [e]).getLast? (cut (s :: (ds' ++ after))) := by
        rw [← hfirst]
        simp
    _ = ds ++ [e] ++ (dashed [s] ++ (ds' ++ markPieces p' ds'.getLast? (cut after))) := by
        rw [cut_sign hsign.1 hsign.2, markPieces, firstChar_cut, hmarked, hlast]
    _ = ds ++ (dashed (e :: s :: ds') ++ markPieces p' ds'.getLast? (cut after)) := by
        rw [hdashed]
        simp

/-- The last digits of a number before its exponent, and the exponent. -/
theorem markPieces_exponent (p : Position) (before : Option Char) (hds : IsDigits ds)
    (he : IsExponent exponent) (hafter : after.head?.any isWordChar = false) : ∃ p' before',
      markPieces p before (cut (ds ++ (exponent ++ after))) =
        ds ++ (dashed exponent ++ markPieces p' before' (cut after)) := by
  cases he with
  | none =>
    obtain ⟨p', -, h⟩ := markPieces_digits p before hds after hafter
    exact ⟨p', ds.getLast?, h⟩
  | @unsigned e ds' he hds' =>
    obtain ⟨hmark, -, hminus⟩ := mark_facts he
    have hword : ∀ c ∈ e :: ds', isWordChar c = true :=
      List.forall_mem_cons.mpr ⟨hmark, fun c hc => isWordChar_of_isDigit (hds'.isDigit c hc)⟩
    have hplain : '-' ∉ e :: ds' := by
      rw [List.mem_cons, not_or]
      exact ⟨hminus, not_mem_digits hds'⟩
    obtain ⟨p', -, h⟩ := markPieces_word p before hds hword after hafter
    refine ⟨p', (ds ++ e :: ds').getLast?, ?_⟩
    rw [dashed_eq_self hplain, ← List.append_assoc, h, List.append_assoc]
  | signed he hs hds' => exact markPieces_signed hds he hs hds' hafter

/-- The point of a number is kept, since it stands between digits. -/
theorem markPieces_number (p : Position) (before : Option Char) (hn : IsNumber n)
    (hafter : after.head?.any isWordChar = false) : ∃ p' before',
      markPieces p before (cut (n ++ after)) = dashed n ++ markPieces p' before' (cut after) := by
  obtain @⟨whole, fraction, exponent, hwhole, hfraction, hexponent⟩ := hn
  rw [dashed_append, dashed_append, dashed_eq_self (not_mem_digits hwhole),
    dashed_eq_self (not_mem_fraction hfraction)]
  cases hfraction with
  | none =>
    obtain ⟨p', before', h⟩ := markPieces_exponent p before hwhole hexponent hafter
    exact ⟨p', before', by simpa using h⟩
  | @point ds hds =>
    have hdot : isQuote '.' = false ∧ isWordChar '.' = false := by decide
    obtain ⟨p₁, hp₁, hfirst⟩ :=
      markPieces_digits p before hwhole ('.' :: (ds ++ (exponent ++ after))) hdot.2
    obtain ⟨p', before', hlast⟩ := markPieces_exponent p₁ (some '.') hds hexponent hafter
    have hpoint : markSign p₁ whole.getLast? '.' (ds ++ (exponent ++ after)).head? = ['.'] :=
      markSign_point hp₁ (head?_any_digits (fun _ => id) hds _)
    refine ⟨p', before', ?_⟩
    calc markPieces p before (cut (whole ++ ('.' :: ds ++ exponent) ++ after))
        = whole ++ markPieces p₁ whole.getLast? (cut ('.' :: (ds ++ (exponent ++ after)))) := by
          simpa using hfirst
      _ = whole ++ ('.' :: (ds ++ (dashed exponent ++ markPieces p' before' (cut after)))) := by
          rw [cut_sign hdot.1 hdot.2, markPieces, firstChar_cut, hpoint, hlast]
          rfl
      _ = whole ++ ('.' :: ds ++ dashed exponent) ++ markPieces p' before' (cut after) := by simp

/-! ## Reading -/

theorem takeWhile_digits (hds : ∀ d ∈ ds, d.isDigit = true) (hcs : ∀ c ∈ cs.head?, c.isDigit = false) :
    (ds ++ cs).takeWhile Char.isDigit = ds ∧ (ds ++ cs).dropWhile Char.isDigit = cs := by
  have hspan := spanDigits_append hds hcs
  rw [Decimal.spanDigits, List.span_eq_takeWhile_dropWhile] at hspan
  exact Prod.mk.inj hspan

theorem ne_of_goesOn {d : Char} (hc : goesOn c = false) (hd : goesOn d = true) : c ≠ d := by
  rintro rfl
  rw [hc] at hd
  cases hd

theorem isDigit_eq_false (hc : goesOn c = false) : c.isDigit = false := by
  by_contra h
  have hword := isWordChar_of_isDigit (by simpa using h)
  rw [(goesOn_eq_false.mp hc).1] at hword
  cases hword

theorem readExponent_append (he : IsExponent exponent) (hrest : ∀ c ∈ rest.head?, goesOn c = false) :
    Sql.readExponent (exponent ++ rest) = (exponent, rest) := by
  have hdigit : ∀ c ∈ rest.head?, c.isDigit = false := fun c hc => isDigit_eq_false (hrest c hc)
  cases he with
  | none =>
    rw [List.nil_append, Sql.readExponent.eq_def]
    split
    · next e s cs =>
      have hlower : e ≠ 'e' := ne_of_goesOn (hrest e rfl) (by decide)
      have hupper : e ≠ 'E' := ne_of_goesOn (hrest e rfl) (by decide)
      simp [hlower, hupper]
    · rfl
  | @unsigned e ds he hds =>
    obtain ⟨htake, hdrop⟩ := takeWhile_digits hds.isDigit hdigit
    obtain ⟨d, ds, rfl⟩ := List.exists_cons_of_ne_nil hds.ne_nil
    have hd : d.isDigit = true := hds.isDigit d List.mem_cons_self
    have hsign : (d == '+' || d == '-') = false := by
      rw [Bool.or_eq_false_iff, beq_eq_false_iff_ne, beq_eq_false_iff_ne]
      constructor <;> rintro rfl <;> exact absurd hd (by decide)
    rw [List.cons_append, List.cons_append, Sql.readExponent, ← List.cons_append, htake, hdrop, hsign,
      hd]
    rcases he with rfl | rfl <;> rfl
  | @signed e s ds he hs hds =>
    obtain ⟨htake, hdrop⟩ := takeWhile_digits hds.isDigit hdigit
    have hfirst := head?_any_digits (fun _ => id) hds rest
    rw [List.cons_append, List.cons_append, Sql.readExponent, htake, hdrop, hfirst]
    rcases he with rfl | rfl <;> rcases hs with rfl | rfl <;> rfl

/-- A number and what is behind it, with the part of it that is read as the exponent. -/
theorem readNumber_append {whole tail : List Char} (hwhole : IsDigits whole)
    (hfraction : IsFraction fraction)
    (htail : ∀ c ∈ tail.head?, c.isDigit = false ∧ c ≠ '.' ∧ c ≠ 'x')
    (hexponent : Sql.readExponent tail = (exponent, rest)) (hrest : rest.head? ≠ some 'L') :
    Sql.readNumber (whole ++ (fraction ++ tail)) =
      (.number (String.ofList (whole ++ (fraction ++ exponent))) false, rest) := by
  have hnext : ∀ c ∈ (fraction ++ tail).head?, c.isDigit = false ∧ c ≠ 'x' := by
    cases hfraction with
    | none => exact fun c hc => ⟨(htail c hc).1, (htail c hc).2.2⟩
    | point hds =>
      rintro c ⟨⟩
      decide
  have hmantissa (cs : List Char) : (whole ++ cs == ['.']) = false := by
    obtain ⟨d, ds, rfl⟩ := List.exists_cons_of_ne_nil hwhole.ne_nil
    rw [beq_eq_false_iff_ne]
    intro h
    have hd := hwhole.isDigit d List.mem_cons_self
    rw [(List.cons.inj h).1] at hd
    exact absurd hd (by decide)
  obtain ⟨htake, hdrop⟩ := takeWhile_digits hwhole.isDigit fun c hc => (hnext c hc).1
  simp only [Sql.readNumber, htake, hdrop]
  -- the first case is that of hexadecimal digits after `0x`
  split
  next heq => exact absurd rfl (hnext 'x' (by rw [heq]; rfl)).2
  next afterWhole hhex =>
    cases hfraction with
    | none =>
      obtain ⟨htake, hdrop⟩ := takeWhile_digits (List.forall_mem_nil _) fun c hc => (htail c hc).1
      have hlone := hmantissa []
      rw [List.append_nil] at hlone
      rw [List.nil_append] at htake hdrop
      split
      next heq =>
        rw [List.nil_append] at heq
        exact absurd rfl (htail '.' (by rw [heq]; rfl)).2.1
      simp only [List.nil_append, List.append_nil, htake, hdrop, hexponent, hlone, Bool.false_eq_true,
        if_false]
      split
      next => exact absurd rfl hrest
      next => rfl
    | point hds =>
      obtain ⟨htake, hdrop⟩ := takeWhile_digits hds.isDigit fun c hc => (htail c hc).1
      simp only [List.cons_append, htake, hdrop, hexponent, List.append_assoc, hmantissa,
        Bool.false_eq_true, if_false]
      split
      next => exact absurd rfl hrest
      next => rfl

theorem exists_of_minus (he : IsExponent exponent) (h : '-' ∈ exponent) :
    ∃ e ds, (e = 'e' ∨ e = 'E') ∧ exponent = e :: '-' :: ds := by
  cases he with
  | none => cases h
  | unsigned he hds =>
    rcases List.mem_cons.mp h with h | h
    · exact absurd h (mark_facts he).2.2
    · exact absurd h (not_mem_digits hds)
  | @signed e s ds he hs hds =>
    rcases List.mem_cons.mp h with h | h
    · exact absurd h (mark_facts he).2.2
    rcases List.mem_cons.mp h with rfl | h
    · exact ⟨e, ds, he, rfl⟩
    · exact absurd h (not_mem_digits hds)

/-- The grammar reads a marked number as the number it is, unless it holds a minus. -/
theorem readNumber_dashed (hn : IsNumber n) (hrest : ∀ c ∈ rest.head?, goesOn c = false) :
    Sql.readNumber (dashed n ++ rest) = (.number (String.ofList n) false, rest) ↔ '-' ∉ n := by
  obtain @⟨whole, fraction, exponent, hwhole, hfraction, hexponent⟩ := hn
  have hplain : '-' ∉ whole ++ fraction := by
    rw [List.mem_append, not_or]
    exact ⟨not_mem_digits hwhole, not_mem_fraction hfraction⟩
  have hmark {e : Char} (he : e = 'e' ∨ e = 'E') : e.isDigit = false ∧ e ≠ '.' ∧ e ≠ 'x' := by
    rcases he with rfl | rfl <;> decide
  rw [← List.append_assoc, dashed_append, dashed_eq_self hplain]
  by_cases hminus : '-' ∈ exponent
  · -- the number that is read ends before its exponent
    obtain ⟨e, ds, he, rfl⟩ := exists_of_minus hexponent hminus
    have htext : dashed (e :: '-' :: ds) ++ rest = e :: (Marker.dash.text ++ (dashed ds ++ rest)) := by
      rcases he with rfl | rfl <;> simp [dashed]
    have hnone : Sql.readExponent (e :: (Marker.dash.text ++ (dashed ds ++ rest))) =
        ([], e :: (Marker.dash.text ++ (dashed ds ++ rest))) := by
      rcases he with rfl | rfl <;> rfl
    have hlong : e ≠ 'L' := by rcases he with rfl | rfl <;> decide
    rw [List.append_assoc, List.append_assoc, htext, readNumber_append hwhole hfraction
      (by rintro c ⟨⟩; exact hmark he) hnone (by simpa using hlong)]
    refine iff_of_false (fun h => ?_) (fun h => h (List.mem_append_right _ hminus))
    have hsame := String.ofList_inj.mp (Sql.Token.number.inj (Prod.mk.inj h).1).1
    simp at hsame
  · have htail : ∀ c ∈ (exponent ++ rest).head?, c.isDigit = false ∧ c ≠ '.' ∧ c ≠ 'x' := by
      intro c hc
      cases hexponent with
      | none =>
        have hc := hrest c hc
        exact ⟨isDigit_eq_false hc, ne_of_goesOn hc (by decide), ne_of_goesOn hc (by decide)⟩
      | unsigned he | signed he =>
        cases hc
        exact hmark he
    have hlong : rest.head? ≠ some 'L' := fun h => ne_of_goesOn (hrest 'L' h) (d := 'L') (by decide) rfl
    rw [dashed_eq_self hminus, List.append_assoc, List.append_assoc, readNumber_append hwhole hfraction
      htail (readExponent_append hexponent hrest) hlong]
    refine iff_of_true (by rw [List.append_assoc]) ?_
    rw [List.mem_append, not_or]
    exact ⟨hplain, hminus⟩

/-- **Numbers reach the grammar.** A number outside literals that no path goes on to is marked
by itself: what is before it as if it stood alone, every minus in it by the marker of a hyphen
and what follows from some position on. So it is left as it is, and read as the number it is,
exactly if there is no minus in it. -/
theorem number_marked (before after : List Char) (hn : IsNumber n)
    (hfree : (quotedFlags (before ++ (n ++ after))).getD before.length false = false)
    (hbefore : before.getLast?.any goesOn = false) (hafter : after.head?.any goesOn = false) :
    ∃ p last, let rest := markPieces p last (cut after)
      markChars (before ++ (n ++ after)) = markChars before ++ (dashed n ++ rest) ∧
      (dashed n = n ↔ '-' ∉ n) ∧
      (Sql.readNumber (dashed n ++ rest) = (.number (String.ofList n) false, rest) ↔ '-' ∉ n) := by
  have hends : ∀ c ∈ after.head?, goesOn c = false := (Option.any_eq_false ..).mp hafter
  obtain ⟨p, last, hmarked⟩ := markChars_append hfree hbefore
  obtain ⟨p', last', hnumber⟩ := markPieces_number p last hn (any_isWordChar hafter)
  refine ⟨p', last', by rw [hmarked, hnumber], dashed_eq_self_iff, readNumber_dashed hn ?_⟩
  rw [head?_markPieces hends]
  exact hends

/-- A number with all its parts, behind a literal with a point at its end. -/
theorem number_marked_plus : IsNumber "1.5E+3".toList ∧
    (quotedFlags "WHERE a='x.' AND b=1.5E+3 AND c".toList).getD 19 false = false ∧
    ∃ p last, let rest := markPieces p last (cut " AND c".toList)
      markChars "WHERE a='x.' AND b=1.5E+3 AND c".toList =
        "WHERE a='x.' AND b=".toList ++ ("1.5E+3".toList ++ rest) ∧
      Sql.readNumber ("1.5E+3".toList ++ rest) = (.number "1.5E+3" false, rest) := by
  have hn : IsNumber "1.5E+3".toList :=
    .mk (isDigits_singleton rfl) (.point (isDigits_singleton rfl))
      (.signed (.inr rfl) (.inl rfl) (isDigits_singleton rfl))
  have hfree : (quotedFlags "WHERE a='x.' AND b=1.5E+3 AND c".toList).getD 19 false = false := by
    decide +kernel
  obtain ⟨p, last, hmarked, hkept, hread⟩ := number_marked "WHERE a='x.' AND b=".toList
    " AND c".toList hn hfree (by decide +kernel) (by decide +kernel)
  have hplain : '-' ∉ "1.5E+3".toList := by decide +kernel
  have hbefore : markChars "WHERE a='x.' AND b=".toList = "WHERE a='x.' AND b=".toList := by
    decide +kernel
  rw [hkept.mpr hplain] at hmarked hread
  rw [hbefore] at hmarked
  exact ⟨hn, hfree, p, last, hmarked, hread.mpr hplain⟩

/-- The minus of an exponent is marked like the hyphen of a name. -/
theorem exponent_minus_marked : IsNumber "1e-5".toList ∧
    "SELECT * FROM app WHERE x > 1e-5".toList =
      "SELECT * FROM app WHERE x > ".toList ++ ("1e-5".toList ++ []) ∧
    (quotedFlags "SELECT * FROM app WHERE x > 1e-5".toList).getD 28 false = false ∧
    "SELECT * FROM app WHERE x > ".toList.getLast?.any goesOn = false ∧
    (Marked.ofString "SELECT * FROM app WHERE x > 1e-5").text =
      "SELECT * FROM app WHERE x > 1e__dash__5" := by
  have hn : IsNumber "1e-5".toList :=
    .mk (isDigits_singleton rfl) .none (.signed (.inl rfl) (.inr rfl) (isDigits_singleton rfl))
  exact ⟨hn, by decide +kernel, by decide +kernel, by decide +kernel, by decide +kernel⟩

end LogQuery.Query
