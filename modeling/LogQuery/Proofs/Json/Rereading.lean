import LogQuery.Proofs.Json.Doubles
import LogQuery.Proofs.Json.Reading

/-!
# Reading what was written

The compact form of a well-formed value is read back if the value is not nested too deep.
Everything comes back as it was but the doubles: of each the double comes back that is read
of its digits.
-/

namespace LogQuery.Json

open LogQuery.Decimal

section Strings

variable {cs rest more : List Char}

theorem hexValue?_digitChar {n : Nat} (h : n < 16) : hexValue? (Nat.digitChar n) = some n := by
  interval_cases n <;> rfl

/-- Control characters are written with their number. -/
theorem readStringChars_control {c : Char} (hc : c.toNat < 32) (more : List Char) :
    readStringChars (['\\', 'u', '0', '0'] ++ hexPair c.toNat ++ more) =
      (readStringChars more).map fun (s, rest) => (c :: s, rest) := by
  have hhigh := hexValue?_digitChar (show c.toNat / 16 < 16 by omega)
  have hlow := hexValue?_digitChar (show c.toNat % 16 < 16 by omega)
  have hhex : hex4? '0' '0' (Nat.digitChar (c.toNat / 16)) (Nat.digitChar (c.toNat % 16)) =
      some c.toNat := by
    have hzero : hexValue? '0' = some 0 := rfl
    have hsum : ((0 * 16 + 0) * 16 + c.toNat / 16) * 16 + c.toNat % 16 = c.toNat := by omega
    simp only [hex4?, hzero, hhigh, hlow, Option.bind_eq_bind, Option.bind_some, hsum,
      Option.pure_def]
  have hsurrogate : isLowSurrogate c.toNat = false ∧ isHighSurrogate c.toNat = false := by
    simp only [isLowSurrogate, isHighSurrogate, Bool.and_eq_false_iff, decide_eq_false_iff_not]
    omega
  simp only [hexPair, List.cons_append, List.nil_append]
  rw [readStringChars]
  simp only [hhex, hsurrogate, Bool.false_eq_true, ↓reduceIte, Char.ofNat_toNat]

theorem readStringChars_plain {c : Char} (hquote : c ≠ '"') (hbackslash : c ≠ '\\')
    (hc : 32 ≤ c.toNat) (more : List Char) :
    readStringChars (c :: more) = (readStringChars more).map fun (s, rest) => (c :: s, rest) := by
  have hplain : ¬ (decide (c.toNat < 32) || c == '\\') = true := by
    simp [hbackslash]
    omega
  rw [readStringChars.eq_def]
  split
  · simp_all
  · simp_all
  · simp_all
  · simp_all
  next heq =>
    cases heq
    rw [if_neg hplain]

theorem eq_ofNat_of_toNat {c : Char} {n : Nat} (h : (c.toNat == n) = true) : c = Char.ofNat n := by
  rw [← eq_of_beq h, Char.ofNat_toNat]

/-- An escaped character is read back. -/
theorem readStringChars_escapeChar (c : Char) (more : List Char) :
    readStringChars (escapeChar c ++ more) =
      (readStringChars more).map fun (s, rest) => (c :: s, rest) := by
  unfold escapeChar
  split
  next h =>
    rw [eq_of_beq h]
    rfl
  split
  next h =>
    rw [eq_of_beq h]
    rfl
  split
  next h =>
    rw [eq_ofNat_of_toNat h]
    rfl
  split
  next h =>
    rw [eq_ofNat_of_toNat h]
    rfl
  split
  next h =>
    rw [eq_of_beq h]
    rfl
  split
  next h =>
    rw [eq_of_beq h]
    rfl
  split
  next h =>
    rw [eq_of_beq h]
    rfl
  split
  next hcontrol => exact readStringChars_control hcontrol more
  next hquote hbackslash _ _ _ _ _ hcontrol =>
    exact readStringChars_plain (by simpa using hquote) (by simpa using hbackslash)
      (Nat.le_of_not_lt hcontrol) more

/-- The characters of a string are read back up to its closing quote. -/
theorem readStringChars_flatMap (cs rest : List Char) :
    readStringChars (cs.flatMap escapeChar ++ '"' :: rest) = some (cs, rest) := by
  induction cs with
  | nil => rfl
  | cons c cs ih =>
    rw [List.flatMap_cons, List.append_assoc, readStringChars_escapeChar, ih]
    rfl

/-- A string is read back. -/
theorem readString_quoteChars (s : String) (rest : List Char) :
    readString (quoteChars s.toList ++ rest) = some (s, rest) := by
  have hchars : quoteChars s.toList ++ rest =
      '"' :: (s.toList.flatMap escapeChar ++ '"' :: rest) := by
    simp [quoteChars]
  rw [hchars, readString, readStringChars_flatMap]
  exact congrArg (fun t => some (t, rest)) String.ofList_toList

end Strings

section Numbers

variable {rest : List Char}

/-- The double that is read of the shortest digits of a double. -/
def rereadDouble (x : Binary64) : Binary64 :=
  match readNumber x.chars with
  | some (.real y, _) => y
  | _ => x

/-- What is read of a written number. -/
def Number.reread : Number → Number
  | .integer n => .integer n
  | .real x => .real (rereadDouble x)

/-- A double is never refused, and is read back as a double. -/
theorem readNumber_double (x : Binary64) (hrest : EndsValue rest) :
    readNumber (x.chars ++ rest) = some (.real (rereadDouble x), rest) := by
  obtain ⟨y, hy⟩ := exists_value?_doubleText x
  have halone : readNumber (x.chars ++ []) = some (.real y, []) := by
    rw [readNumber_doubleChars x endsValue_nil, hy]
    rfl
  rw [List.append_nil] at halone
  rw [rereadDouble, halone, readNumber_doubleChars x hrest, hy]
  rfl

/-- A number is read back. -/
theorem readNumber_chars {n : Number} (hn : (Value.number n).WellFormed) (hrest : EndsValue rest) :
    readNumber (n.chars ++ rest) = some (n.reread, rest) := by
  cases hn with
  | integer hrange => exact readNumber_intChars hrange hrest
  | real x => exact readNumber_double x hrest

/-- A number begins with a digit or a sign. -/
theorem exists_numberChars_cons (n : Number) :
    ∃ c cs, n.chars = c :: cs ∧ (c.isDigit = true ∨ c = '-') := by
  have htext : ∃ t : NumberText, t.WellFormed ∧ t.chars = n.chars := by
    cases n with
    | integer n => exact ⟨integerText n, wellFormed_integerText n, chars_integerText n⟩
    | real x => exact ⟨doubleText x, wellFormed_doubleText x, chars_doubleText x⟩
  obtain ⟨t, ht, hchars⟩ := htext
  obtain ⟨c, cs, hwhole⟩ := List.exists_cons_of_ne_nil ht.whole.ne_nil
  have hc : c.isDigit = true := ht.whole.isDigit c (hwhole ▸ List.mem_cons_self)
  rw [← hchars, NumberText.chars]
  split
  next => exact ⟨_, _, rfl, Or.inr rfl⟩
  next =>
    rw [NumberText.unsignedChars, hwhole]
    exact ⟨c, _, rfl, Or.inl hc⟩

end Numbers

section Values

mutual

/-- What is read of a written value. -/
def Value.reread : Value → Value
  | .number n => .number n.reread
  | .array items => .array (rereadItems items)
  | .object members => .object (rereadMembers members)
  | v => v

def rereadItems : List Value → List Value
  | [] => []
  | v :: vs => v.reread :: rereadItems vs

def rereadMembers : List (String × Value) → List (String × Value)
  | [] => []
  | (k, v) :: rest => (k, v.reread) :: rereadMembers rest

end

variable {v : Value} {fuel depth : Nat} {rest : List Char}

/-- The text of a value is read back before anything that ends a value. -/
def Value.ReadsBack (v : Value) : Prop :=
  ∀ {fuel depth : Nat} {rest : List Char}, 2 * v.chars.length ≤ fuel → EndsValue rest →
    readValue fuel depth (v.chars ++ rest) =
      if v.nesting ≤ depth then some (v.reread, rest) else none

/-- A value begins with a character that is neither a blank nor a closing bracket. -/
theorem exists_valueChars_cons (v : Value) :
    ∃ c cs, v.chars = c :: cs ∧ isSpace c = false ∧ c ≠ ']' := by
  cases v with
  | number n =>
    obtain ⟨c, cs, hchars, hc⟩ := exists_numberChars_cons n
    refine ⟨c, cs, by rw [Value.chars, hchars], ?_⟩
    obtain hdigit | rfl := hc
    · obtain ⟨hspace, hbracket, -⟩ := not_space_of_isDigit hdigit
      exact ⟨hspace, hbracket⟩
    · exact ⟨rfl, by decide⟩
  | null => exact ⟨_, _, rfl, rfl, by decide⟩
  | bool b => cases b <;> exact ⟨_, _, rfl, rfl, by decide⟩
  | string s => exact ⟨_, _, rfl, rfl, by decide⟩
  | array items => exact ⟨_, _, by rw [Value.chars]; rfl, rfl, by decide⟩
  | object members => exact ⟨_, _, by rw [Value.chars]; rfl, rfl, by decide⟩

theorem skipSpace_chars (v : Value) (rest : List Char) :
    skipSpace (v.chars ++ rest) = v.chars ++ rest := by
  obtain ⟨c, cs, hchars, hspace, -⟩ := exists_valueChars_cons v
  rw [hchars, List.cons_append, skipSpace_cons hspace]

/-- The text of a value among others is read back. -/
theorem Value.ReadsBack.before (hv : v.ReadsBack) {c : Char} (hc : c = ',' ∨ c = ']' ∨ c = '\x7d')
    (tail : List Char) (hfuel : 2 * v.chars.length ≤ fuel) :
    readValue fuel depth (skipSpace (v.chars ++ c :: tail)) =
      if v.nesting ≤ depth then some (v.reread, c :: tail) else none := by
  rw [skipSpace_chars, hv hfuel (endsValue_cons hc tail)]

theorem readItems_none {cs : List Char} (h : readValue fuel depth (skipSpace cs) = none) :
    readItems (fuel + 1) depth cs = none := by
  rw [readItems, h]

theorem readItems_last {cs : List Char}
    (h : readValue fuel depth (skipSpace cs) = some (v, ']' :: rest)) :
    readItems (fuel + 1) depth cs = some ([v], rest) := by
  rw [readItems, h]
  rfl

theorem readItems_next {cs : List Char}
    (h : readValue fuel depth (skipSpace cs) = some (v, ',' :: rest)) :
    readItems (fuel + 1) depth cs =
      (readItems fuel depth rest).map fun (vs, rest) => (v :: vs, rest) := by
  rw [readItems, h]
  rfl

theorem nestingOfItems_cons_le {vs : List Value} :
    nestingOfItems (v :: vs) ≤ depth ↔ v.nesting ≤ depth ∧ nestingOfItems vs ≤ depth :=
  Nat.max_le

/-- The items of an array are read back up to its closing bracket. -/
theorem readItems_chars {items : List Value} (hne : items ≠ []) (hback : ∀ v ∈ items, v.ReadsBack)
    (hfuel : 2 * (commaChars (itemsChars items)).length + 1 ≤ fuel) :
    readItems fuel depth (commaChars (itemsChars items) ++ ']' :: rest) =
      if nestingOfItems items ≤ depth then some (rereadItems items, rest) else none := by
  induction items generalizing fuel with
  | nil => exact absurd rfl hne
  | cons v vs ih =>
    obtain ⟨hv, hvs⟩ := List.forall_mem_cons.mp hback
    obtain ⟨fuel, rfl⟩ := Nat.exists_eq_succ_of_ne_zero (show fuel ≠ 0 by omega)
    -- the last item is followed by the bracket, any other by a comma
    cases vs with
    | nil =>
      have hlength : 2 * v.chars.length ≤ fuel := Nat.le_of_succ_le_succ hfuel
      have hread : readValue fuel depth (skipSpace (v.chars ++ ']' :: rest)) = _ :=
        hv.before (by simp) rest hlength
      by_cases hdeep : v.nesting ≤ depth
      · have hnil : nestingOfItems [] ≤ depth := Nat.zero_le depth
        rw [if_pos hdeep] at hread
        rw [if_pos (nestingOfItems_cons_le.mpr ⟨hdeep, hnil⟩)]
        exact readItems_last hread
      · rw [if_neg hdeep] at hread
        rw [if_neg fun h => hdeep (nestingOfItems_cons_le.mp h).1]
        exact readItems_none hread
    | cons w ws =>
      have hchars : commaChars (itemsChars (v :: w :: ws)) ++ ']' :: rest =
          v.chars ++ ',' :: (commaChars (itemsChars (w :: ws)) ++ ']' :: rest) := by
        simp [itemsChars, commaChars]
      have hlength : (commaChars (itemsChars (v :: w :: ws))).length =
          v.chars.length + ((commaChars (itemsChars (w :: ws))).length + 1) := by
        simp [itemsChars, commaChars]
      have hread : readValue fuel depth (skipSpace (v.chars ++ ',' :: _)) = _ :=
        hv.before (by simp) (commaChars (itemsChars (w :: ws)) ++ ']' :: rest) (by omega)
      have htail := ih (List.cons_ne_nil w ws) hvs (show _ ≤ fuel by omega)
      rw [hchars]
      by_cases hdeep : v.nesting ≤ depth
      · rw [if_pos hdeep] at hread
        rw [readItems_next hread, htail]
        by_cases hrest : nestingOfItems (w :: ws) ≤ depth
        · rw [if_pos hrest, if_pos (nestingOfItems_cons_le.mpr ⟨hdeep, hrest⟩)]
          rfl
        · rw [if_neg hrest, if_neg fun h => hrest (nestingOfItems_cons_le.mp h).2]
          rfl
      · rw [if_neg hdeep] at hread
        rw [if_neg fun h => hdeep (nestingOfItems_cons_le.mp h).1]
        exact readItems_none hread

theorem readMembers_none {key : String} {cs tail : List Char}
    (hkey : readString (skipSpace cs) = some (key, ':' :: tail))
    (h : readValue fuel depth (skipSpace tail) = none) :
    readMembers (fuel + 1) depth cs = none := by
  have hcolon : skipSpace (':' :: tail) = ':' :: tail := skipSpace_cons rfl tail
  rw [readMembers, hkey]
  simp only [hcolon, h]

theorem readMembers_last {key : String} {cs tail : List Char}
    (hkey : readString (skipSpace cs) = some (key, ':' :: tail))
    (h : readValue fuel depth (skipSpace tail) = some (v, '\x7d' :: rest)) :
    readMembers (fuel + 1) depth cs = some ([(key, v)], rest) := by
  have hcolon : skipSpace (':' :: tail) = ':' :: tail := skipSpace_cons rfl tail
  rw [readMembers, hkey]
  simp only [hcolon, h]
  rfl

theorem readMembers_next {key : String} {cs tail : List Char}
    (hkey : readString (skipSpace cs) = some (key, ':' :: tail))
    (h : readValue fuel depth (skipSpace tail) = some (v, ',' :: rest)) :
    readMembers (fuel + 1) depth cs =
      (readMembers fuel depth rest).map fun (ms, rest) => ((key, v) :: ms, rest) := by
  have hcolon : skipSpace (':' :: tail) = ':' :: tail := skipSpace_cons rfl tail
  rw [readMembers, hkey]
  simp only [hcolon, h]
  rfl

theorem nestingOfMembers_cons_le {key : String} {ms : List (String × Value)} :
    nestingOfMembers ((key, v) :: ms) ≤ depth ↔ v.nesting ≤ depth ∧ nestingOfMembers ms ≤ depth :=
  Nat.max_le

/-- The members of an object are read back up to its closing brace. -/
theorem readMembers_chars {members : List (String × Value)} (hne : members ≠ [])
    (hback : ∀ m ∈ members, m.2.ReadsBack)
    (hfuel : 2 * (commaChars (membersChars members)).length + 1 ≤ fuel) :
    readMembers fuel depth (commaChars (membersChars members) ++ '\x7d' :: rest) =
      if nestingOfMembers members ≤ depth then some (rereadMembers members, rest) else none := by
  induction members generalizing fuel with
  | nil => exact absurd rfl hne
  | cons m ms ih =>
    obtain ⟨key, v⟩ := m
    obtain ⟨(hv : v.ReadsBack), hms⟩ := List.forall_mem_cons.mp hback
    obtain ⟨fuel, rfl⟩ := Nat.exists_eq_succ_of_ne_zero (show fuel ≠ 0 by omega)
    have hkey : ∀ tail, readString (skipSpace (memberChars key v.chars ++ tail)) =
        some (key, ':' :: (v.chars ++ tail)) := by
      intro tail
      have hchars : memberChars key v.chars ++ tail =
          quoteChars key.toList ++ ':' :: (v.chars ++ tail) := by
        simp [memberChars]
      rw [hchars]
      exact readString_quoteChars key (':' :: (v.chars ++ tail))
    cases ms with
    | nil =>
      have hlength : 2 * v.chars.length ≤ fuel := by
        simp only [membersChars, commaChars, memberChars, List.length_append,
          List.length_cons] at hfuel
        omega
      have hread : readValue fuel depth (skipSpace (v.chars ++ '\x7d' :: rest)) = _ :=
        hv.before (by simp) rest hlength
      by_cases hdeep : v.nesting ≤ depth
      · have hnil : nestingOfMembers [] ≤ depth := Nat.zero_le depth
        rw [if_pos hdeep] at hread
        rw [if_pos (nestingOfMembers_cons_le.mpr ⟨hdeep, hnil⟩)]
        exact readMembers_last (hkey _) hread
      · rw [if_neg hdeep] at hread
        rw [if_neg fun h => hdeep (nestingOfMembers_cons_le.mp h).1]
        exact readMembers_none (hkey _) hread
    | cons n ns =>
      have hchars : commaChars (membersChars ((key, v) :: n :: ns)) ++ '\x7d' :: rest =
          memberChars key v.chars ++
            ',' :: (commaChars (membersChars (n :: ns)) ++ '\x7d' :: rest) := by
        simp [membersChars, commaChars]
      have hlength : (commaChars (membersChars ((key, v) :: n :: ns))).length =
          (quoteChars key.toList).length + (v.chars.length + 1) +
            ((commaChars (membersChars (n :: ns))).length + 1) := by
        simp [membersChars, commaChars, memberChars]
        omega
      have hread : readValue fuel depth (skipSpace (v.chars ++ ',' :: _)) = _ :=
        hv.before (by simp) (commaChars (membersChars (n :: ns)) ++ '\x7d' :: rest) (by omega)
      have htail := ih (List.cons_ne_nil n ns) hms (show _ ≤ fuel by omega)
      rw [hchars]
      by_cases hdeep : v.nesting ≤ depth
      · rw [if_pos hdeep] at hread
        rw [readMembers_next (hkey _) hread, htail]
        by_cases hrest : nestingOfMembers (n :: ns) ≤ depth
        · rw [if_pos hrest, if_pos (nestingOfMembers_cons_le.mpr ⟨hdeep, hrest⟩)]
          rfl
        · rw [if_neg hrest, if_neg fun h => hrest (nestingOfMembers_cons_le.mp h).2]
          rfl
      · rw [if_neg hdeep] at hread
        rw [if_neg fun h => hdeep (nestingOfMembers_cons_le.mp h).1]
        exact readMembers_none (hkey _) hread

theorem readValue_number {c : Char} (hc : c.isDigit = true ∨ c = '-') (cs : List Char) :
    readValue (fuel + 1) depth (c :: cs) =
      (readNumber (c :: cs)).map fun (n, rest) => (.number n, rest) := by
  have hother : ∀ d : Char, d.isDigit = false → d ≠ '-' → c ≠ d := by
    rintro d hdigit hsign rfl
    obtain h | h := hc
    · rw [hdigit] at h
      cases h
    · exact hsign h
  rw [readValue]
  all_goals
    intro tail heq
    exact absurd (List.head_eq_of_cons_eq heq) (hother _ (by decide) (by decide))

theorem rereadMembers_eq_map (members : List (String × Value)) :
    rereadMembers members = members.map fun m => (m.1, m.2.reread) := by
  induction members with
  | nil => rfl
  | cons m members ih => rw [rereadMembers, ih, List.map_cons]

theorem ascending_rereadMembers {members : List (String × Value)} (h : Ascending members) :
    Ascending (rereadMembers members) := by
  rw [rereadMembers_eq_map]
  exact List.pairwise_map.mpr h

/-- There is fuel for the first character of a value. -/
theorem readsBack_of_succ (h : ∀ {fuel depth : Nat} {rest : List Char},
      2 * v.chars.length ≤ fuel + 1 → EndsValue rest →
        readValue (fuel + 1) depth (v.chars ++ rest) =
          if v.nesting ≤ depth then some (v.reread, rest) else none) : v.ReadsBack := by
  intro fuel depth rest hfuel hrest
  cases fuel with
  | zero =>
    obtain ⟨c, cs, hchars, -⟩ := exists_valueChars_cons v
    rw [hchars, List.length_cons] at hfuel
    omega
  | succ fuel => exact h hfuel hrest

/-- A value without an array or an object is read at any depth. -/
theorem readsBack_of_flat (hflat : v.nesting = 0)
    (h : ∀ {fuel depth : Nat} {rest : List Char}, EndsValue rest →
      readValue (fuel + 1) depth (v.chars ++ rest) = some (v.reread, rest)) : v.ReadsBack := by
  apply readsBack_of_succ
  intro fuel depth rest _ hrest
  rw [hflat, if_pos (Nat.zero_le depth), h hrest]

theorem readsBack_number {n : Number} (hn : (Value.number n).WellFormed) :
    (Value.number n).ReadsBack := by
  apply readsBack_of_flat rfl
  intro fuel depth rest hrest
  have hread := readNumber_chars hn hrest
  obtain ⟨c, cs, hchars, hc⟩ := exists_numberChars_cons n
  rw [hchars, List.cons_append] at hread
  rw [Value.chars, hchars, List.cons_append, readValue_number hc, hread]
  rfl

theorem readsBack_string (s : String) : (Value.string s).ReadsBack := by
  apply readsBack_of_flat rfl
  intro fuel depth rest _
  have hread : readValue (fuel + 1) depth (quoteChars s.toList ++ rest) =
      (readString (quoteChars s.toList ++ rest)).map fun p => (.string p.1, p.2) := rfl
  rw [Value.chars, hread, readString_quoteChars]
  rfl

theorem readValue_items {cs : List Char} (hcs : ∀ tail, skipSpace cs ≠ ']' :: tail) :
    readValue (fuel + 1) (depth + 1) ('[' :: cs) =
      (readItems fuel depth (skipSpace cs)).map fun (vs, rest) => (.array vs, rest) := by
  rw [readValue]
  split
  next heq => exact absurd heq (hcs _)
  next => rfl

theorem readValue_members {cs : List Char} (hcs : ∀ tail, skipSpace cs ≠ '\x7d' :: tail) :
    readValue (fuel + 1) (depth + 1) ('\x7b' :: cs) =
      (readMembers fuel depth (skipSpace cs)).map fun (ms, rest) => (.ofMembers ms, rest) := by
  rw [readValue]
  split
  next heq => exact absurd heq (hcs _)
  next => rfl

theorem commaChars_cons (cs : List Char) (css : List (List Char)) :
    commaChars (cs :: css) = cs ++ css.flatMap (',' :: ·) := by
  induction css generalizing cs with
  | nil => simp [commaChars]
  | cons ds css ih =>
    rw [commaChars, ih, List.flatMap_cons]
    · rfl
    · exact List.cons_ne_nil ds css

theorem skipSpace_items (v : Value) (vs : List Value) (rest : List Char) :
    skipSpace (commaChars (itemsChars (v :: vs)) ++ rest) =
        commaChars (itemsChars (v :: vs)) ++ rest ∧
      ∀ tail, commaChars (itemsChars (v :: vs)) ++ rest ≠ ']' :: tail := by
  obtain ⟨c, cs, hchars, hspace, hc⟩ := exists_valueChars_cons v
  rw [itemsChars, commaChars_cons, hchars, List.cons_append, List.cons_append]
  exact ⟨skipSpace_cons hspace _, fun _ heq => hc (List.head_eq_of_cons_eq heq)⟩

theorem skipSpace_members (m : String × Value) (ms : List (String × Value)) (rest : List Char) :
    skipSpace (commaChars (membersChars (m :: ms)) ++ rest) =
        commaChars (membersChars (m :: ms)) ++ rest ∧
      ∀ tail, commaChars (membersChars (m :: ms)) ++ rest ≠ '\x7d' :: tail := by
  obtain ⟨key, v⟩ := m
  rw [membersChars, commaChars_cons, memberChars, quoteChars]
  exact ⟨rfl, fun _ heq => absurd (List.head_eq_of_cons_eq heq) (by decide)⟩

theorem readsBack_array {items : List Value} (hitems : ∀ v ∈ items, v.ReadsBack) :
    (Value.array items).ReadsBack := by
  apply readsBack_of_succ
  intro fuel depth rest hfuel _
  have hnesting : (Value.array items).nesting = nestingOfItems items + 1 := rfl
  have hchars : (Value.array items).chars ++ rest =
      '[' :: (commaChars (itemsChars items) ++ ']' :: rest) := by
    simp [Value.chars]
  rw [hnesting, hchars]
  cases depth with
  | zero =>
    rw [if_neg (Nat.not_succ_le_zero _)]
    rfl
  | succ depth =>
    cases items with
    | nil =>
      have hnil : nestingOfItems [] + 1 ≤ depth + 1 := Nat.succ_le_succ (Nat.zero_le depth)
      rw [if_pos hnil]
      rfl
    | cons v vs =>
      obtain ⟨hskip, hopen⟩ := skipSpace_items v vs (']' :: rest)
      have hlength : 2 * (commaChars (itemsChars (v :: vs))).length + 1 ≤ fuel := by
        simp only [Value.chars, List.length_append, List.length_cons] at hfuel
        omega
      rw [readValue_items (by rwa [hskip]), hskip,
        readItems_chars (List.cons_ne_nil v vs) hitems hlength]
      simp only [Nat.add_le_add_iff_right]
      split <;> rfl

/-- The text of an object is read member by member, whatever keys these have in whatever
order. -/
theorem readValue_objectChars {members : List (String × Value)}
    (hmembers : ∀ m ∈ members, m.2.ReadsBack)
    (hfuel : 2 * (Value.object members).chars.length ≤ fuel + 1) :
    readValue (fuel + 1) depth ((Value.object members).chars ++ rest) =
      if (Value.object members).nesting ≤ depth then
        some (.ofMembers (rereadMembers members), rest) else none := by
  have hnesting : (Value.object members).nesting = nestingOfMembers members + 1 := rfl
  have hchars : (Value.object members).chars ++ rest =
      '\x7b' :: (commaChars (membersChars members) ++ '\x7d' :: rest) := by
    simp [Value.chars]
  rw [hnesting, hchars]
  cases depth with
  | zero =>
    rw [if_neg (Nat.not_succ_le_zero _)]
    rfl
  | succ depth =>
    cases members with
    | nil =>
      have hnil : nestingOfMembers [] + 1 ≤ depth + 1 := Nat.succ_le_succ (Nat.zero_le depth)
      rw [if_pos hnil]
      rfl
    | cons m ms =>
      obtain ⟨hskip, hopen⟩ := skipSpace_members m ms ('\x7d' :: rest)
      have hlength : 2 * (commaChars (membersChars (m :: ms))).length + 1 ≤ fuel := by
        simp only [Value.chars, List.length_append, List.length_cons] at hfuel
        omega
      rw [readValue_members (by rwa [hskip]), hskip,
        readMembers_chars (List.cons_ne_nil m ms) hmembers hlength]
      simp only [Nat.add_le_add_iff_right]
      split <;> rfl

theorem readsBack_object {members : List (String × Value)} (hascending : Ascending members)
    (hmembers : ∀ m ∈ members, m.2.ReadsBack) : (Value.object members).ReadsBack := by
  apply readsBack_of_succ
  intro fuel depth rest hfuel _
  have hback : Value.ofMembers (rereadMembers members) = (Value.object members).reread :=
    ofMembers_of_ascending (ascending_rereadMembers hascending)
  rw [readValue_objectChars hmembers hfuel, hback]

/-- A well-formed value is read back. -/
theorem readsBack (hv : v.WellFormed) : v.ReadsBack := by
  -- along the well-formedness, which has the items and the members as premises
  induction hv with
  | null => exact readsBack_of_flat rfl fun _ => rfl
  | bool b => cases b <;> exact readsBack_of_flat rfl fun _ => rfl
  | integer hn => exact readsBack_number (.integer hn)
  | real x => exact readsBack_number (.real x)
  | string s => exact readsBack_string s
  | array hitems ih => exact readsBack_array ih
  | object hascending hmembers ih => exact readsBack_object hascending ih

theorem parse?_of_readValue {w : Value} {p : Prop} [Decidable p]
    (hread : ∀ fuel, 2 * v.chars.length ≤ fuel + 1 →
      readValue (fuel + 1) maxDepth (v.chars ++ []) = if p then some (w, []) else none) :
    parse? v.chars = if p then some w else none := by
  have hwhole := hread (2 * v.chars.length + 1) (by omega)
  have hskip := skipSpace_chars v []
  rw [List.append_nil] at hwhole hskip
  rw [parse?, hskip, hwhole]
  by_cases hp : p
  · rw [if_pos hp, if_pos hp]
    rfl
  · rw [if_neg hp, if_neg hp]

/-- A text that is a well-formed value is read if it is not nested too deep. -/
theorem parse?_chars (hv : v.WellFormed) :
    parse? v.chars = if v.nesting ≤ maxDepth then some v.reread else none :=
  parse?_of_readValue fun _ hfuel => readsBack hv hfuel endsValue_nil

/-- The text of an object with any members is read as the object that they make. -/
theorem parse?_objectChars {members : List (String × Value)}
    (hmembers : ∀ m ∈ members, m.2.WellFormed) : parse? (Value.object members).chars =
      if (Value.object members).nesting ≤ maxDepth then
        some (.ofMembers (rereadMembers members)) else none :=
  parse?_of_readValue fun _ hfuel =>
    readValue_objectChars (fun m hm => readsBack (hmembers m hm)) hfuel

/-- A value without a double in it. -/
inductive Value.Floatless : Value → Prop
  | null : Floatless .null
  | bool (b : Bool) : Floatless (.bool b)
  | integer (n : Int) : Floatless (.number (.integer n))
  | string (s : String) : Floatless (.string s)
  | array {items : List Value} : (∀ v ∈ items, v.Floatless) → Floatless (.array items)
  | object {members : List (String × Value)} : (∀ m ∈ members, m.2.Floatless) →
      Floatless (.object members)

theorem rereadItems_eq_map (items : List Value) : rereadItems items = items.map Value.reread := by
  induction items with
  | nil => rfl
  | cons v items ih => rw [rereadItems, ih, List.map_cons]

/-- Without doubles a value comes back as it was. -/
theorem Value.Floatless.reread (h : v.Floatless) : v.reread = v := by
  induction h with
  | null | bool | integer | string => rfl
  | array _ ih => rw [Value.reread, rereadItems_eq_map, List.map_congr_left ih, List.map_id']
  | object _ ih =>
    have hsame := fun m hm => congrArg (Prod.mk (Prod.fst m)) (ih m hm)
    rw [Value.reread, rereadMembers_eq_map, List.map_congr_left hsame, List.map_id']

end Values

end LogQuery.Json
