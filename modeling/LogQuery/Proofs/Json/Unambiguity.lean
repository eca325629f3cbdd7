import Mathlib.Data.List.Forall2
import LogQuery.Proofs.Json.Written

/-!
# One way to take a text apart

`ArrayOf` and `ObjectOf` say of which elements a text is the array and of which members it is
the object. There is one answer at most. What is passed over at the front of a text depends
on nothing but the text, and a part is passed over before anything that cannot belong to it:
so the first element ends in one place, and so does each one after it.
-/

namespace LogQuery.Json

section Shapes

/-- A text as a member: what its key has between the quotes, and its value with the blanks
around it. -/
inductive MemberOf : List Char → List Char × List Char → Prop
  | mk {b key a value : List Char} (hb : Blank b) (hkey : StringBody key) (ha : Blank a)
      (hvalue : Grammar .element value) :
      MemberOf (b ++ '"' :: (key ++ '"' :: (a ++ ':' :: value))) (key, value)

/-- A text as an array of elements, each with the blanks around it. -/
inductive ArrayOf : List Char → List (List Char) → Prop
  | empty {b : List Char} (hb : Blank b) : ArrayOf ('[' :: (b ++ [']'])) []
  | elements {es : List (List Char)} (hne : es ≠ []) (h : ∀ e ∈ es, Grammar .element e) :
      ArrayOf ('[' :: (commaChars es ++ [']'])) es

/-- A text as an object of members. -/
inductive ObjectOf : List Char → List (List Char × List Char) → Prop
  | empty {b : List Char} (hb : Blank b) : ObjectOf ('\x7b' :: (b ++ ['\x7d'])) []
  | members {texts : List (List Char)} {ms : List (List Char × List Char)} (hne : texts ≠ [])
      (h : List.Forall₂ MemberOf texts ms) : ObjectOf ('\x7b' :: (commaChars texts ++ ['\x7d'])) ms

variable {cs : List Char} {es texts : List (List Char)} {ms : List (List Char × List Char)}

theorem MemberOf.grammar {m : List Char × List Char} (h : MemberOf cs m) : Grammar .member cs := by
  obtain ⟨hb, hkey, ha, hvalue⟩ := h
  exact .member hb hkey ha hvalue

theorem grammar_of_membersOf (h : List.Forall₂ MemberOf texts ms) :
    ∀ cs ∈ texts, Grammar .member cs := by
  induction h with
  | nil => exact List.forall_mem_nil _
  | cons hm _ ih => exact List.forall_mem_cons.mpr ⟨hm.grammar, ih⟩

theorem ArrayOf.grammar (h : ArrayOf cs es) : Grammar .value cs := by
  cases h with
  | empty hb => exact .emptyArray hb
  | elements hne h => exact grammar_array h

theorem ObjectOf.grammar (h : ObjectOf cs ms) : Grammar .value cs := by
  cases h with
  | empty hb => exact .emptyObject hb
  | members hne h => exact grammar_object (grammar_of_membersOf h)

theorem memberOf_memberChars (key : String) (h : Grammar .element cs) :
    MemberOf (memberChars key cs) (key.toList.flatMap escapeChar, cs) := by
  simpa [memberChars, quoteChars] using
    MemberOf.mk blank_nil (stringBody_escaped key.toList) blank_nil h

/-- Elements with commas between them, and none at all, make an array of themselves. -/
theorem arrayOf_commaChars (h : ∀ e ∈ es, Grammar .element e) :
    ArrayOf ('[' :: (commaChars es ++ [']'])) es := by
  cases es with
  | nil => exact .empty blank_nil
  | cons e es => exact .elements (List.cons_ne_nil e es) h

end Shapes

section Fronts

variable {cs cs' rest rest' : List Char}

/-- Where an element stands before what ends a value, there is no other one. -/
theorem Grammar.element_unique (h : Grammar .element cs) (h' : Grammar .element cs')
    (hrest : EndsValue rest) (hrest' : EndsValue rest') (heq : cs ++ rest = cs' ++ rest') :
    cs = cs' ∧ rest = rest' := by
  have hfuel : 2 * cs.length ≤ 2 * cs.length + 2 * cs'.length := by omega
  have hfuel' : 2 * cs'.length ≤ 2 * cs.length + 2 * cs'.length := by omega
  obtain ⟨after, hskip, rfl⟩ := passedOver h hfuel hrest
  obtain ⟨after', hskip', rfl⟩ := passedOver h' hfuel' hrest'
  rw [heq, hskip'] at hskip
  obtain rfl : after' = after := Option.some.inj hskip
  exact ⟨List.append_cancel_right heq, rfl⟩

theorem StringBody.unique {key key' : List Char} (h : StringBody key) (h' : StringBody key')
    (heq : key ++ '"' :: rest = key' ++ '"' :: rest') : key = key' ∧ rest = rest' := by
  have hskip := skipStringChars_body h rest
  rw [heq, skipStringChars_body h'] at hskip
  obtain rfl : rest' = rest := Option.some.inj hskip
  exact ⟨List.append_cancel_right heq, rfl⟩

/-- Blanks end where something else begins. -/
theorem Blank.unique {b b' : List Char} {c : Char} (hb : Blank b) (hb' : Blank b')
    (hc : isSpace c = false) (heq : b ++ c :: rest = b' ++ c :: rest') :
    b = b' ∧ rest = rest' := by
  have hskip := skipSpace_append hb (c :: rest)
  rw [heq, skipSpace_append hb', skipSpace_cons hc, skipSpace_cons hc] at hskip
  obtain rfl : rest' = rest := List.tail_eq_of_cons_eq hskip
  exact ⟨List.append_cancel_right heq, rfl⟩

theorem MemberOf.unique {m m' : List Char × List Char} (h : MemberOf cs m) (h' : MemberOf cs' m')
    (hrest : EndsValue rest) (hrest' : EndsValue rest') (heq : cs ++ rest = cs' ++ rest') :
    cs = cs' ∧ m = m' ∧ rest = rest' := by
  obtain ⟨hb, hkey, ha, hvalue⟩ := h
  obtain ⟨hb', hkey', ha', hvalue'⟩ := h'
  simp only [List.append_assoc, List.cons_append] at heq
  obtain ⟨rfl, hquote⟩ := hb.unique hb' rfl heq
  obtain ⟨rfl, hcolon⟩ := hkey.unique hkey' hquote
  obtain ⟨rfl, hstart⟩ := ha.unique ha' rfl hcolon
  obtain ⟨rfl, rfl⟩ := hvalue.element_unique hvalue' hrest hrest' hstart
  exact ⟨rfl, rfl, rfl⟩

theorem exists_memberOf (h : Grammar .member cs) : ∃ m, MemberOf cs m := by
  cases h with
  | member hb hkey ha hvalue => exact ⟨_, .mk hb hkey ha hvalue⟩

theorem Grammar.member_unique (h : Grammar .member cs) (h' : Grammar .member cs')
    (hrest : EndsValue rest) (hrest' : EndsValue rest') (heq : cs ++ rest = cs' ++ rest') :
    cs = cs' ∧ rest = rest' := by
  obtain ⟨m, hm⟩ := exists_memberOf h
  obtain ⟨m', hm'⟩ := exists_memberOf h'
  obtain ⟨hcs, -, hend⟩ := hm.unique hm' hrest hrest' heq
  exact ⟨hcs, hend⟩

end Fronts

section Lists

variable {One : List Char → Prop} {css dss : List (List Char)} {close : Char}

/-- Texts with commas between them are taken apart in one way if each of them is found where
it stands. -/
theorem commaChars_unique (hclose : close = ']' ∨ close = '\x7d')
    (hone : ∀ {cs cs' rest rest' : List Char}, One cs → One cs' → EndsValue rest →
      EndsValue rest' → cs ++ rest = cs' ++ rest' → cs = cs' ∧ rest = rest')
    (h : ∀ cs ∈ css, One cs) (h' : ∀ cs ∈ dss, One cs) (hne : css ≠ []) (hne' : dss ≠ [])
    (heq : commaChars css ++ [close] = commaChars dss ++ [close]) : css = dss := by
  have hends : EndsValue [close] := endsValue_cons (.inr hclose) []
  have hmore (more : List Char) : EndsValue (',' :: more) := endsValue_cons (.inl rfl) more
  have hcomma : close ≠ ',' := by rcases hclose with rfl | rfl <;> decide
  induction css generalizing dss with
  | nil => exact absurd rfl hne
  | cons cs css ih =>
    obtain ⟨hcs, hcss⟩ := List.forall_mem_cons.mp h
    cases dss with
    | nil => exact absurd rfl hne'
    | cons ds dss =>
      obtain ⟨hds, hdss⟩ := List.forall_mem_cons.mp h'
      -- the first texts are the same, and then both lists end or both go on
      cases css with
      | nil =>
        cases dss with
        | nil => exact congrArg (· :: []) (List.append_cancel_right heq)
        | cons ds' dss =>
          simp only [commaChars, List.append_assoc, List.cons_append] at heq
          obtain ⟨-, hend⟩ := hone hcs hds hends (hmore _) heq
          exact absurd (List.head_eq_of_cons_eq hend) hcomma
      | cons cs' css =>
        cases dss with
        | nil =>
          simp only [commaChars, List.append_assoc, List.cons_append] at heq
          obtain ⟨-, hend⟩ := hone hcs hds (hmore _) hends heq
          exact absurd (List.head_eq_of_cons_eq hend).symm hcomma
        | cons ds' dss =>
          simp only [commaChars, List.append_assoc, List.cons_append] at heq
          obtain ⟨rfl, hend⟩ := hone hcs hds (hmore _) (hmore _) heq
          rw [ih hcss hdss (by simp) (by simp) (List.tail_eq_of_cons_eq hend)]

end Lists

section Wholes

variable {cs : List Char} {es es' : List (List Char)} {ms ms' : List (List Char × List Char)}

/-- Blanks are no elements, since an element has more than blanks. -/
theorem not_blank_elements {b : List Char} (hb : Blank b) (hne : es ≠ [])
    (h : ∀ e ∈ es, Grammar .element e) : b ++ [']'] ≠ commaChars es ++ [']'] := by
  intro heq
  have hskip : skipSpace (b ++ [']']) = [']'] := by rw [skipSpace_append hb, skipSpace_cons rfl]
  rw [heq] at hskip
  exact (grammar_elements hne h).skipSpace_elements _ _ hskip

theorem not_blank_members {b : List Char} (hb : Blank b) (hne : es ≠ [])
    (h : ∀ e ∈ es, Grammar .member e) : b ++ ['\x7d'] ≠ commaChars es ++ ['\x7d'] := by
  intro heq
  have hskip : skipSpace (b ++ ['\x7d']) = ['\x7d'] := by
    rw [skipSpace_append hb, skipSpace_cons rfl]
  rw [heq] at hskip
  exact (grammar_members hne h).skipSpace_members _ _ hskip

/-- A text is an array of no other elements. -/
theorem ArrayOf.unique (h : ArrayOf cs es) (h' : ArrayOf cs es') : es = es' := by
  generalize heq : cs = ds at h'
  cases h with
  | empty hb =>
    cases h' with
    | empty => rfl
    | elements hne h' =>
      exact absurd (List.tail_eq_of_cons_eq heq) (not_blank_elements hb hne h')
  | elements hne h =>
    cases h' with
    | empty hb =>
      exact absurd (List.tail_eq_of_cons_eq heq).symm (not_blank_elements hb hne h)
    | elements hne' h' =>
      exact commaChars_unique (.inl rfl) Grammar.element_unique h h' hne hne'
        (List.tail_eq_of_cons_eq heq)

theorem membersOf_unique {texts : List (List Char)} (h : List.Forall₂ MemberOf texts ms)
    (h' : List.Forall₂ MemberOf texts ms') : ms = ms' :=
  List.right_unique_forall₂'
    (fun _ _ _ hm hm' => (hm.unique hm' endsValue_nil endsValue_nil rfl).2.1) h h'

/-- A text is an object of no other members. -/
theorem ObjectOf.unique (h : ObjectOf cs ms) (h' : ObjectOf cs ms') : ms = ms' := by
  generalize heq : cs = ds at h'
  cases h with
  | empty hb =>
    cases h' with
    | empty => rfl
    | members hne h' =>
      exact absurd (List.tail_eq_of_cons_eq heq)
        (not_blank_members hb hne (grammar_of_membersOf h'))
  | members hne h =>
    cases h' with
    | empty hb =>
      exact absurd (List.tail_eq_of_cons_eq heq).symm
        (not_blank_members hb hne (grammar_of_membersOf h))
    | members hne' h' =>
      obtain rfl := commaChars_unique (.inr rfl) Grammar.member_unique (grammar_of_membersOf h)
        (grammar_of_membersOf h') hne hne' (List.tail_eq_of_cons_eq heq)
      exact membersOf_unique h h'

end Wholes

end LogQuery.Json
