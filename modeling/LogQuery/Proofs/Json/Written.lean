import LogQuery.Proofs.Json.Passing
import LogQuery.Proofs.Json.Rereading

/-!
# Texts that are read and written

Whatever is read as a value is passed over as far, so it is of the grammar, and so is the
compact form of a value that can be read. A compact form has no control character at all.
-/

namespace LogQuery.Json

open LogQuery.Decimal

section Reading

variable {fuel depth : Nat} {cs rest : List Char} {v : Value}

theorem skipStringChars_numbered {a b c d : Char} {n : Nat} (h : hex4? a b c d = some n)
    (more : List Char) :
    skipStringChars ('\\' :: 'u' :: a :: b :: c :: d :: more) = skipStringChars more := by
  rw [skipStringChars, h]
  rfl

theorem skipStringChars_of_read {s : List Char} (h : readStringChars cs = some (s, rest)) :
    skipStringChars cs = some rest := by
  fun_induction readStringChars cs generalizing s with
  | case1 => cases h
  | case2 =>
    cases h
    rfl
  | case3 => cases h
  | case4 => cases h
  | case5 => cases h
  | case6 a b c d n hn =>
    next hm _ _ ih =>
    obtain ⟨⟨s, after⟩, hread, heq⟩ := Option.map_eq_some_iff.mp h
    cases heq
    rw [skipStringChars_numbered hn, skipStringChars_numbered hm]
    exact ih hread
  | case7 => cases h
  | case8 => cases h
  | case9 a b c d tail n hn hlow hhigh ih =>
    obtain ⟨⟨s, after⟩, hread, heq⟩ := Option.map_eq_some_iff.mp h
    cases heq
    rw [skipStringChars_numbered hn]
    exact ih hread
  | case10 => cases h
  | case11 c tail hne e hc ih =>
    obtain ⟨⟨s, after⟩, hread, heq⟩ := Option.map_eq_some_iff.mp h
    cases heq
    rw [skipStringChars_escaped (by rw [hc]; rfl)]
    exact ih hread
  | case12 => cases h
  | case13 c tail hquote hne hne' hplain ih =>
    obtain ⟨⟨s, after⟩, hread, heq⟩ := Option.map_eq_some_iff.mp h
    cases heq
    simp only [Bool.or_eq_true, decide_eq_true_eq, beq_iff_eq, not_or, Nat.not_lt] at hplain
    rw [skipStringChars_plain hplain.1 (fun he => hquote he) hplain.2]
    exact ih hread

theorem skipString_of_read {s : String} (h : readString cs = some (s, rest)) :
    skipString cs = some rest := by
  unfold readString at h
  split at h
  · obtain ⟨⟨s, after⟩, hread, heq⟩ := Option.map_eq_some_iff.mp h
    cases heq
    exact skipStringChars_of_read hread
  · cases h

/-- Whatever is read is passed over, and as far. -/
structure SkipsRead (fuel : Nat) : Prop where
  value : ∀ {depth cs v rest}, readValue fuel depth cs = some (v, rest) →
    skipValue fuel cs = some rest
  items : ∀ {depth cs vs rest}, readItems fuel depth cs = some (vs, rest) →
    skipItems fuel cs = some rest
  members : ∀ {depth cs ms rest}, readMembers fuel depth cs = some (ms, rest) →
    skipMembers fuel cs = some rest

theorem skipValue_of_read (ih : SkipsRead fuel)
    (h : readValue (fuel + 1) depth cs = some (v, rest)) : skipValue (fuel + 1) cs = some rest := by
  unfold readValue at h
  split at h
  next tail =>
    obtain ⟨⟨s, after⟩, hread, heq⟩ := Option.map_eq_some_iff.mp h
    cases heq
    exact skipString_of_read hread
  next tail =>
    cases depth with
    | zero => cases h
    | succ depth =>
      simp only at h
      split at h
      next hend =>
        cases h
        rw [skipValue, hend]
        rfl
      next hopen =>
        obtain ⟨⟨is, after⟩, hread, heq⟩ := Option.map_eq_some_iff.mp h
        cases heq
        rw [skipValue_items hopen, ← skipItems_skipSpace]
        exact ih.items hread
  next tail =>
    cases depth with
    | zero => cases h
    | succ depth =>
      simp only at h
      split at h
      next hend =>
        cases h
        rw [skipValue, hend]
        rfl
      next hopen =>
        obtain ⟨⟨ms, after⟩, hread, heq⟩ := Option.map_eq_some_iff.mp h
        cases heq
        rw [skipValue_members hopen, ← skipMembers_skipSpace]
        exact ih.members hread
  · obtain ⟨after, hread, heq⟩ := Option.map_eq_some_iff.mp h
    cases heq
    exact hread
  · obtain ⟨after, hread, heq⟩ := Option.map_eq_some_iff.mp h
    cases heq
    exact hread
  · obtain ⟨after, hread, heq⟩ := Option.map_eq_some_iff.mp h
    cases heq
    exact hread
  next =>
    obtain ⟨⟨n, after⟩, hread, heq⟩ := Option.map_eq_some_iff.mp h
    cases heq
    obtain ⟨⟨t, after⟩, htext, hn⟩ := Option.bind_eq_some_iff.mp hread
    obtain ⟨n, -, hn⟩ := Option.map_eq_some_iff.mp hn
    cases hn
    rw [skipValue, htext]
    · rfl
    all_goals assumption

theorem skipItems_of_read {vs : List Value} (ih : SkipsRead fuel)
    (h : readItems (fuel + 1) depth cs = some (vs, rest)) :
    skipItems (fuel + 1) cs = some rest := by
  rw [readItems] at h
  split at h
  · cases h
  next v tail hv =>
    rw [skipItems, ih.value hv]
    split at h
    next hend =>
      cases h
      simp only [hend]
    next hend =>
      obtain ⟨⟨vs, after⟩, hread, heq⟩ := Option.map_eq_some_iff.mp h
      cases heq
      simp only [hend]
      exact ih.items hread
    · cases h

theorem skipMembers_of_read {ms : List (String × Value)} (ih : SkipsRead fuel)
    (h : readMembers (fuel + 1) depth cs = some (ms, rest)) :
    skipMembers (fuel + 1) cs = some rest := by
  rw [readMembers] at h
  split at h
  · cases h
  next key afterKey hkey =>
    have hskip := skipString_of_read hkey
    split at h
    next tail hcolon =>
      split at h
      · cases h
      next v after hv =>
        have hvalue := ih.value hv
        split at h
        next hend =>
          cases h
          rw [skipMembers, hskip]
          simp only [hcolon, hvalue, hend]
        next hend =>
          obtain ⟨⟨ms, after⟩, hread, heq⟩ := Option.map_eq_some_iff.mp h
          cases heq
          rw [skipMembers, hskip]
          simp only [hcolon, hvalue, hend]
          exact ih.members hread
        · cases h
    · cases h

theorem skipsRead (fuel : Nat) : SkipsRead fuel := by
  induction fuel with
  | zero => exact ⟨nofun, nofun, nofun⟩
  | succ fuel ih => exact ⟨skipValue_of_read ih, skipItems_of_read ih, skipMembers_of_read ih⟩

/-- A text that is read as a value is of the grammar. -/
theorem grammar_of_parse? (h : parse? cs = some v) : Grammar .element cs := by
  rw [parse?] at h
  split at h
  next v' rest hread =>
    split at h
    next hend =>
      apply isText_iff.mp
      rw [isText, (skipsRead _).value hread]
      exact hend
    · cases h
  next => cases h

end Reading

section Writing

variable {cs : List Char} {css : List (List Char)} {v : Value}

theorem stringBody_escaped (cs : List Char) : StringBody (cs.flatMap escapeChar) := by
  obtain ⟨body, hbody, heq⟩ :=
    stringBody_of_skip (skipStringChars_of_read (readStringChars_flatMap cs []))
  rwa [List.append_cancel_right heq]

theorem grammar_quoteChars (cs : List Char) : Grammar .value (quoteChars cs) :=
  .string (stringBody_escaped cs)

/-- The compact form of a value that can be read is of the grammar. -/
theorem grammar_chars (hv : v.WellFormed) : Grammar .value v.chars := by
  have hread : readValue _ v.nesting (v.chars ++ []) = _ :=
    readsBack hv (Nat.le_refl _) endsValue_nil
  rw [if_pos (Nat.le_refl _)] at hread
  obtain ⟨passed, hpassed, heq⟩ := (passesOver _).value ((skipsRead _).value hread)
  rwa [List.append_cancel_right heq]

theorem grammar_memberChars (key : String) (h : Grammar .element cs) :
    Grammar .member (memberChars key cs) := by
  simpa [memberChars, quoteChars] using
    Grammar.member blank_nil (stringBody_escaped key.toList) blank_nil h

theorem NumberText.WellFormed.printable {t : NumberText} (h : t.WellFormed) :
    Printable t.chars := by
  have hfraction : Printable (fractionChars t.fraction) := by
    cases hf : t.fraction with
    | none => exact printable_nil
    | some ds => exact printable_cons.mpr ⟨by decide, (h.fraction ds hf).printable⟩
  have hexponent : Printable (exponentChars t.exponent) := by
    cases he : t.exponent with
    | none => exact printable_nil
    | some e =>
      refine printable_cons.mpr ⟨by decide, printable_cons.mpr ⟨?_, (h.exponent e he).printable⟩⟩
      split <;> decide
  have hunsigned : Printable t.unsignedChars :=
    printable_append.mpr ⟨h.whole.printable, printable_append.mpr ⟨hfraction, hexponent⟩⟩
  unfold NumberText.chars
  split
  · exact printable_cons.mpr ⟨by decide, hunsigned⟩
  · exact hunsigned

theorem printable_quoteChars (cs : List Char) : Printable (quoteChars cs) := by
  simp [quoteChars, printable_cons, printable_append, (stringBody_escaped cs).printable,
    printable_nil]

theorem printable_memberChars (key : String) (h : Printable cs) :
    Printable (memberChars key cs) :=
  printable_append.mpr ⟨printable_quoteChars key.toList, printable_cons.mpr ⟨by decide, h⟩⟩

theorem printable_commaChars (h : ∀ cs ∈ css, Printable cs) : Printable (commaChars css) := by
  cases css with
  | nil => exact printable_nil
  | cons cs css =>
    obtain ⟨hcs, hmore⟩ := List.forall_mem_cons.mp h
    rw [commaChars_cons]
    refine printable_append.mpr ⟨hcs, fun c hc => ?_⟩
    obtain ⟨ds, hds, hc⟩ := List.mem_flatMap.mp hc
    exact printable_cons.mpr ⟨by decide, hmore ds hds⟩ c hc

theorem itemsChars_eq (items : List Value) : itemsChars items = items.map Value.chars := by
  induction items with
  | nil => rfl
  | cons v items ih => rw [itemsChars, ih, List.map_cons]

theorem membersChars_eq (members : List (String × Value)) :
    membersChars members = members.map fun m => memberChars m.1 m.2.chars := by
  induction members with
  | nil => rfl
  | cons m members ih => rw [membersChars, ih, List.map_cons]

/-- The compact form of a value that can be read has no control character. -/
theorem printable_chars (hv : v.WellFormed) : Printable v.chars := by
  induction hv with
  | null => simp [Value.chars, Printable]
  | bool b => cases b <;> simp [Value.chars, Printable]
  | @integer n _ =>
    rw [Value.chars, Number.chars, ← chars_integerText]
    exact (wellFormed_integerText n).printable
  | real x =>
    rw [Value.chars, Number.chars, ← chars_doubleText]
    exact (wellFormed_doubleText x).printable
  | string s => exact printable_quoteChars s.toList
  | @array items _ ih =>
    have hitems : Printable (commaChars (itemsChars items)) := by
      rw [itemsChars_eq]
      exact printable_commaChars (List.forall_mem_map.mpr ih)
    simp [Value.chars, printable_cons, printable_append, hitems, printable_nil]
  | @object members _ _ ih =>
    have hmembers : Printable (commaChars (membersChars members)) := by
      rw [membersChars_eq]
      exact printable_commaChars
        (List.forall_mem_map.mpr fun m hm => printable_memberChars m.1 (ih m hm))
    simp [Value.chars, printable_cons, printable_append, hmembers, printable_nil]

end Writing

end LogQuery.Json
