import LogQuery.Json.Printer
import LogQuery.Json.Reader
import LogQuery.Proofs.Json.Numbers

/-!
# The grammar of JSON

`Grammar` says which texts are JSON without any reader: it knows neither a limit of nesting
nor one of numbers. A text of the grammar has no control character but the blanks between
its parts, and it remains one when blanks are put before it or taken off its end.
-/

namespace LogQuery.Json

open LogQuery.Decimal

/-- Blanks between the parts of a text. -/
def Blank (cs : List Char) : Prop := ∀ c ∈ cs, isSpace c = true

/-- What stands between the quotes of a string. -/
inductive StringBody : List Char → Prop
  | nil : StringBody []
  | plain {c : Char} {cs : List Char} (hcontrol : 32 ≤ c.toNat) (hquote : c ≠ '"')
      (hbackslash : c ≠ '\\') (h : StringBody cs) : StringBody (c :: cs)
  | escaped {c : Char} {cs : List Char} (hc : (simpleEscape? c).isSome = true)
      (h : StringBody cs) : StringBody ('\\' :: c :: cs)
  | numbered {a b c d : Char} {cs : List Char} (hcode : (hex4? a b c d).isSome = true)
      (h : StringBody cs) : StringBody ('\\' :: 'u' :: a :: b :: c :: d :: cs)

/-- What may follow the digits before the point. -/
inductive FractionPart : List Char → Prop
  | absent : FractionPart []
  | present {ds : List Char} (hds : IsDigits ds) : FractionPart ('.' :: ds)

/-- What may follow the digits of a number. -/
inductive ExponentPart : List Char → Prop
  | absent : ExponentPart []
  | present {e : Char} {sign ds : List Char} (he : e = 'e' ∨ e = 'E')
      (hsign : sign = [] ∨ sign = ['+'] ∨ sign = ['-']) (hds : IsDigits ds) :
      ExponentPart (e :: (sign ++ ds))

/-- A number without its sign: it does not begin with a needless zero. -/
inductive UnsignedNumber : List Char → Prop
  | mk {ds fraction exponent : List Char} (hds : IsDigits ds)
      (hlead : ds.head? = some '0' → ds.length = 1) (hfraction : FractionPart fraction)
      (hexponent : ExponentPart exponent) : UnsignedNumber (ds ++ (fraction ++ exponent))

/-- The parts of a text. An element is a value with blanks around it. -/
inductive Part
  | value
  | element
  | elements
  | member
  | members
deriving DecidableEq, Repr

/-- The texts of each part. -/
inductive Grammar : Part → List Char → Prop
  | nullWord : Grammar .value "null".toList
  | trueWord : Grammar .value "true".toList
  | falseWord : Grammar .value "false".toList
  | unsigned {cs : List Char} (h : UnsignedNumber cs) : Grammar .value cs
  | negative {cs : List Char} (h : UnsignedNumber cs) : Grammar .value ('-' :: cs)
  | string {cs : List Char} (h : StringBody cs) : Grammar .value ('"' :: (cs ++ ['"']))
  | emptyArray {b : List Char} (hb : Blank b) : Grammar .value ('[' :: (b ++ [']']))
  | array {cs : List Char} (h : Grammar .elements cs) : Grammar .value ('[' :: (cs ++ [']']))
  | emptyObject {b : List Char} (hb : Blank b) : Grammar .value ('\x7b' :: (b ++ ['\x7d']))
  | object {cs : List Char} (h : Grammar .members cs) :
      Grammar .value ('\x7b' :: (cs ++ ['\x7d']))
  | element {b cs a : List Char} (hb : Blank b) (h : Grammar .value cs) (ha : Blank a) :
      Grammar .element (b ++ (cs ++ a))
  | lastElement {cs : List Char} (h : Grammar .element cs) : Grammar .elements cs
  | nextElement {cs more : List Char} (h : Grammar .element cs) (hmore : Grammar .elements more) :
      Grammar .elements (cs ++ ',' :: more)
  | member {b key a cs : List Char} (hb : Blank b) (hkey : StringBody key) (ha : Blank a)
      (h : Grammar .element cs) : Grammar .member (b ++ '"' :: (key ++ '"' :: (a ++ ':' :: cs)))
  | lastMember {cs : List Char} (h : Grammar .member cs) : Grammar .members cs
  | nextMember {cs more : List Char} (h : Grammar .member cs) (hmore : Grammar .members more) :
      Grammar .members (cs ++ ',' :: more)

section Parts

variable {cs : List Char} {css : List (List Char)}

theorem blank_nil : Blank [] := nofun

theorem Grammar.element_of_value (h : Grammar .value cs) : Grammar .element cs := by
  simpa using Grammar.element blank_nil h blank_nil

theorem Grammar.blank_element {b : List Char} (hb : Blank b) (h : Grammar .element cs) :
    Grammar .element (b ++ cs) := by
  cases h with
  | @element b' v a hb' hv ha =>
    have hblank : Blank (b ++ b') := List.forall_mem_append.mpr ⟨hb, hb'⟩
    simpa using Grammar.element hblank hv ha

theorem Grammar.element_blank {a : List Char} (ha : Blank a) (h : Grammar .element cs) :
    Grammar .element (cs ++ a) := by
  cases h with
  | @element b v a' hb hv ha' =>
    have hblank : Blank (a' ++ a) := List.forall_mem_append.mpr ⟨ha', ha⟩
    simpa using Grammar.element hb hv hblank

theorem Grammar.blank_elements {b : List Char} (hb : Blank b) (h : Grammar .elements cs) :
    Grammar .elements (b ++ cs) := by
  cases h with
  | lastElement h => exact .lastElement (h.blank_element hb)
  | nextElement h hmore =>
    rw [← List.append_assoc]
    exact .nextElement (h.blank_element hb) hmore

theorem Grammar.blank_member {b : List Char} (hb : Blank b) (h : Grammar .member cs) :
    Grammar .member (b ++ cs) := by
  cases h with
  | @member b' key a v hb' hkey ha hv =>
    have hblank : Blank (b ++ b') := List.forall_mem_append.mpr ⟨hb, hb'⟩
    simpa using Grammar.member hblank hkey ha hv

theorem Grammar.blank_members {b : List Char} (hb : Blank b) (h : Grammar .members cs) :
    Grammar .members (b ++ cs) := by
  cases h with
  | lastMember h => exact .lastMember (h.blank_member hb)
  | nextMember h hmore =>
    rw [← List.append_assoc]
    exact .nextMember (h.blank_member hb) hmore

theorem UnsignedNumber.exists_cons {number : List Char} (h : UnsignedNumber number) :
    ∃ d ds, number = d :: ds ∧ d.isDigit = true := by
  obtain ⟨hds, -, -, -⟩ := h
  obtain ⟨d, ds, rfl⟩ := List.exists_cons_of_ne_nil hds.ne_nil
  exact ⟨d, _, rfl, hds.isDigit d List.mem_cons_self⟩

theorem Grammar.value_cons (h : Grammar .value cs) :
    ∃ c tail, cs = c :: tail ∧ isSpace c = false ∧ c ≠ ']' ∧ c ≠ '\x7d' := by
  cases h with
  | unsigned h =>
    obtain ⟨d, tail, rfl, hd⟩ := h.exists_cons
    exact ⟨d, tail, rfl, not_space_of_isDigit hd⟩
  | nullWord | trueWord | falseWord => exact ⟨_, _, rfl, rfl, by decide, by decide⟩
  | negative | string | emptyArray | array | emptyObject | object =>
    exact ⟨_, _, rfl, rfl, by decide, by decide⟩

/-- Texts with commas between them, put together from the last one on. -/
theorem commaChars_induction {One Many : List Char → Prop} (hlast : ∀ {cs}, One cs → Many cs)
    (hnext : ∀ {cs more}, One cs → Many more → Many (cs ++ ',' :: more)) (hne : css ≠ [])
    (h : ∀ cs ∈ css, One cs) : Many (commaChars css) := by
  induction css with
  | nil => exact absurd rfl hne
  | cons cs css ih =>
    obtain ⟨hcs, hcss⟩ := List.forall_mem_cons.mp h
    cases css with
    | nil => exact hlast hcs
    | cons ds css => exact hnext hcs (ih (List.cons_ne_nil ds css) hcss)

theorem commaChars_eq_intercalate (css : List (List Char)) :
    commaChars css = [','].intercalate css := by
  induction css with
  | nil => rfl
  | cons cs css ih =>
    cases css with
    | nil => simp [commaChars]
    | cons ds css => simp [commaChars, ih]

theorem grammar_elements (hne : css ≠ []) (h : ∀ cs ∈ css, Grammar .element cs) :
    Grammar .elements (commaChars css) :=
  commaChars_induction .lastElement .nextElement hne h

theorem grammar_members (hne : css ≠ []) (h : ∀ cs ∈ css, Grammar .member cs) :
    Grammar .members (commaChars css) :=
  commaChars_induction .lastMember .nextMember hne h

/-- Elements with commas between them make an array. -/
theorem grammar_array (h : ∀ cs ∈ css, Grammar .element cs) :
    Grammar .value ('[' :: (commaChars css ++ [']'])) := by
  cases css with
  | nil => exact .emptyArray blank_nil
  | cons cs css => exact .array (grammar_elements (List.cons_ne_nil cs css) h)

/-- Members with commas between them make an object. -/
theorem grammar_object (h : ∀ cs ∈ css, Grammar .member cs) :
    Grammar .value ('\x7b' :: (commaChars css ++ ['\x7d'])) := by
  cases css with
  | nil => exact .emptyObject blank_nil
  | cons cs css => exact .object (grammar_members (List.cons_ne_nil cs css) h)

end Parts

section Ends

variable {cs : List Char}

theorem IsDigits.exists_concat {ds : List Char} (h : IsDigits ds) :
    ∃ before d, ds = before ++ [d] ∧ d.isDigit = true := by
  rcases List.eq_nil_or_concat' ds with rfl | ⟨before, d, rfl⟩
  · exact absurd rfl h.ne_nil
  · exact ⟨before, d, rfl, h.isDigit d (by simp)⟩

theorem UnsignedNumber.exists_concat (h : UnsignedNumber cs) :
    ∃ before d, cs = before ++ [d] ∧ d.isDigit = true := by
  obtain ⟨hds, -, hfraction, hexponent⟩ := h
  next ds fraction exponent =>
  cases hexponent with
  | @present e sign es _ _ hes =>
    obtain ⟨before, d, rfl, hd⟩ := hes.exists_concat
    exact ⟨ds ++ (fraction ++ (e :: (sign ++ before))), d, by simp, hd⟩
  | absent =>
    cases hfraction with
    | present hfs =>
      obtain ⟨before, d, rfl, hd⟩ := hfs.exists_concat
      exact ⟨ds ++ '.' :: before, d, by simp, hd⟩
    | absent =>
      obtain ⟨before, d, rfl, hd⟩ := hds.exists_concat
      exact ⟨before, d, by simp, hd⟩

theorem Grammar.value_concat (h : Grammar .value cs) :
    ∃ before c, cs = before ++ [c] ∧ isSpace c = false := by
  cases h with
  | nullWord => exact ⟨"nul".toList, 'l', rfl, rfl⟩
  | trueWord => exact ⟨"tru".toList, 'e', rfl, rfl⟩
  | falseWord => exact ⟨"fals".toList, 'e', rfl, rfl⟩
  | unsigned h =>
    obtain ⟨before, d, rfl, hd⟩ := h.exists_concat
    exact ⟨before, d, rfl, (not_space_of_isDigit hd).1⟩
  | @negative cs h =>
    obtain ⟨before, d, rfl, hd⟩ := h.exists_concat
    exact ⟨'-' :: before, d, rfl, (not_space_of_isDigit hd).1⟩
  | string | emptyArray | array | emptyObject | object => exact ⟨_ :: _, _, rfl, rfl⟩

/-- An element remains one when a blank is taken off its end. -/
theorem Grammar.element_of_concat {c : Char} (hc : isSpace c = true)
    (h : Grammar .element (cs ++ [c])) : Grammar .element cs := by
  generalize heq : cs ++ [c] = ds at h
  cases h with
  | @element b v a hb hv ha =>
    rcases List.eq_nil_or_concat' a with rfl | ⟨a, d, rfl⟩
    · obtain ⟨before, d, rfl, hd⟩ := hv.value_concat
      have hlast : cs ++ [c] = (b ++ before) ++ [d] := by simpa using heq
      have hcd : c = d := List.head_eq_of_cons_eq (List.append_inj' hlast rfl).2
      rw [← hcd, hc] at hd
      cases hd
    · have hlast : cs ++ [c] = (b ++ (v ++ a)) ++ [d] := by simpa using heq
      rw [(List.append_inj' hlast rfl).1]
      exact .element hb hv fun d hd => ha d (by simp [hd])

end Ends

section Control

/-- A text without control characters. -/
def Printable (cs : List Char) : Prop := ∀ c ∈ cs, 32 ≤ c.toNat

/-- A text without control characters but the blanks. -/
def NoControl (cs : List Char) : Prop := ∀ c ∈ cs, 32 ≤ c.toNat ∨ isSpace c = true

variable {cs ds : List Char} {c : Char} {p : Part}

theorem printable_append : Printable (cs ++ ds) ↔ Printable cs ∧ Printable ds :=
  List.forall_mem_append

theorem printable_cons : Printable (c :: cs) ↔ 32 ≤ c.toNat ∧ Printable cs :=
  List.forall_mem_cons

theorem printable_nil : Printable [] := nofun

theorem Printable.noControl (h : Printable cs) : NoControl cs := fun c hc => .inl (h c hc)

theorem noControl_append : NoControl (cs ++ ds) ↔ NoControl cs ∧ NoControl ds :=
  List.forall_mem_append

theorem noControl_cons :
    NoControl (c :: cs) ↔ (32 ≤ c.toNat ∨ isSpace c = true) ∧ NoControl cs :=
  List.forall_mem_cons

theorem noControl_nil : NoControl [] := nofun

theorem Blank.noControl (h : Blank cs) : NoControl cs := fun c hc => .inr (h c hc)

theorem IsDigits.printable (h : IsDigits cs) : Printable cs := fun c hc =>
  Nat.le_trans (by decide) (Char.isDigit_iff_toNat.mp (h.isDigit c hc)).1

theorem le_toNat_of_simpleEscape? (h : (simpleEscape? c).isSome = true) : 32 ≤ c.toNat := by
  unfold simpleEscape? at h
  split at h
  all_goals first | decide | cases h

theorem le_toNat_of_hexValue? {n : Nat} (h : hexValue? c = some n) : 32 ≤ c.toNat := by
  have hle {low : Char} (hlow : low ≤ c) : low.toNat ≤ c.toNat := hlow
  unfold hexValue? at h
  split at h
  next hdigit => exact Nat.le_trans (by decide) (Char.isDigit_iff_toNat.mp hdigit).1
  split at h
  next hlower =>
    have := hle (of_decide_eq_true (Bool.and_eq_true_iff.mp hlower).1)
    exact Nat.le_trans (by decide) this
  split at h
  next hupper =>
    have := hle (of_decide_eq_true (Bool.and_eq_true_iff.mp hupper).1)
    exact Nat.le_trans (by decide) this
  · cases h

theorem printable_of_hex4? {a b c d : Char} (h : (hex4? a b c d).isSome = true) :
    Printable [a, b, c, d] := by
  obtain ⟨n, hn⟩ := Option.isSome_iff_exists.mp h
  simp only [hex4?, Option.bind_eq_bind, Option.bind_eq_some_iff] at hn
  obtain ⟨_, ha, _, hb, _, hc, _, hd, -⟩ := hn
  simp [Printable, le_toNat_of_hexValue? ha, le_toNat_of_hexValue? hb, le_toNat_of_hexValue? hc,
    le_toNat_of_hexValue? hd]

theorem StringBody.printable (h : StringBody cs) : Printable cs := by
  induction h with
  | nil => exact printable_nil
  | plain hcontrol _ _ _ ih => exact printable_cons.mpr ⟨hcontrol, ih⟩
  | escaped hc _ ih =>
    exact printable_cons.mpr ⟨by decide, printable_cons.mpr ⟨le_toNat_of_simpleEscape? hc, ih⟩⟩
  | @numbered a b c d cs hcode _ ih =>
    exact printable_cons.mpr ⟨by decide, printable_cons.mpr ⟨by decide,
      printable_append.mpr ⟨printable_of_hex4? hcode, ih⟩⟩⟩

theorem UnsignedNumber.printable (h : UnsignedNumber cs) : Printable cs := by
  obtain ⟨hds, -, hfraction, hexponent⟩ := h
  refine printable_append.mpr ⟨hds.printable, printable_append.mpr ⟨?_, ?_⟩⟩
  · cases hfraction with
    | absent => exact printable_nil
    | present hds => exact printable_cons.mpr ⟨by decide, hds.printable⟩
  · cases hexponent with
    | absent => exact printable_nil
    | present hletter hsign hds =>
      refine printable_cons.mpr ⟨?_, printable_append.mpr ⟨?_, hds.printable⟩⟩
      · rcases hletter with rfl | rfl <;> decide
      · rcases hsign with rfl | rfl | rfl <;> simp [Printable]

/-- A text of the grammar has no control character but the blanks. -/
theorem Grammar.noControl (h : Grammar p cs) : NoControl cs := by
  induction h with
  | nullWord | trueWord | falseWord => simp [NoControl]
  | unsigned h => exact h.printable.noControl
  | negative h => exact noControl_cons.mpr ⟨by decide, h.printable.noControl⟩
  | string h => simp [noControl_cons, noControl_append, h.printable.noControl, noControl_nil]
  | emptyArray hb | emptyObject hb =>
    simp [noControl_cons, noControl_append, hb.noControl, noControl_nil]
  | array _ ih | object _ ih => simp [noControl_cons, noControl_append, ih, noControl_nil]
  | element hb _ ha ih => simp [noControl_append, hb.noControl, ha.noControl, ih]
  | lastElement _ ih | lastMember _ ih => exact ih
  | nextElement _ _ ih ihmore | nextMember _ _ ih ihmore =>
    simp [noControl_cons, noControl_append, ih, ihmore]
  | member hb hkey ha _ ih =>
    simp [noControl_cons, noControl_append, hb.noControl, hkey.printable.noControl, ha.noControl, ih]

end Control

end LogQuery.Json
