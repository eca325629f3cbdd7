import LogQuery.Proofs.Compile.WellFormed
import LogQuery.Proofs.Json.Doubles

/-!
# Which numbers and texts a list holds

IN compares in one of two ways. If all elements of its list are integers, they are compared
as such with numbers. One element that is none turns all of them to texts, and the text of an
element is the one it was written with: a number is then found if an element is written as
the number is printed. `007` next to a word is no longer the number 7, but it is the text `007`.
-/

namespace LogQuery.Json

open LogQuery.Decimal

theorem ofList_intChars (m : Int) : String.ofList (intChars m) = toString m := by
  apply String.toList_inj.mp
  rw [String.toList_ofList]
  cases m with
  | ofNat n => rw [intChars, if_neg (by simp)]; simp [toString, Int.repr, Nat.repr]
  | negSucc n =>
    rw [intChars, if_pos (Int.negSucc_lt_zero n)]
    simp [toString, Int.repr, Nat.repr]

theorem digits?_toDigits (n : Nat) : digits? (Nat.toDigits 10 n) = some n := by
  have hds := isDigits_toDigits n
  rw [digits?, ofDigits_toDigits, if_pos]
  rw [Bool.and_eq_true, List.all_eq_true]
  exact ⟨by simp, hds.isDigit⟩

/-- How the digits of a number are read after a sign or none. -/
theorem int64?_of_spanSign {cs : List Char} {m : Int} {negative : Bool} (hm : isInt64 m = true)
    (hcs : spanSign cs = (negative, Nat.toDigits 10 m.natAbs))
    (hvalue : (if negative then -(m.natAbs : Int) else m.natAbs) = m) : int64? cs = some m := by
  simp only [int64?, hcs, digits?_toDigits, Option.bind_some, hvalue]
  exact if_pos hm

/-- A printed integer is read as itself. -/
theorem int64?_intChars {m : Int} (hm : isInt64 m = true) : int64? (intChars m) = some m := by
  by_cases hneg : m < 0
  · rw [intChars, if_pos hneg]
    exact int64?_of_spanSign hm rfl (by rw [if_pos rfl]; omega)
  · have hds := (isDigits_toDigits m.natAbs).isDigit
    have hsign : spanSign (Nat.toDigits 10 m.natAbs) = (false, Nat.toDigits 10 m.natAbs) := by
      unfold spanSign
      split
      next heq => exact absurd (hds '-' (by simp [heq])) (by decide)
      next heq => exact absurd (hds '+' (by simp [heq])) (by decide)
      next => rfl
    rw [intChars, if_neg hneg]
    exact int64?_of_spanSign hm hsign (by rw [if_neg (by decide)]; omega)

end LogQuery.Json

namespace LogQuery.Compile

open LogQuery.Predicate LogQuery.Record LogQuery.Json LogQuery.Decimal

variable {p : Path} {texts : List String}

/-- Whether every text is an integer of 64 bits. -/
def AllIntegers (texts : List String) : Prop := ∀ s ∈ texts, (int64? s.toList).isSome = true

instance : Decidable (AllIntegers texts) := inferInstanceAs (Decidable (∀ s ∈ texts, _))

theorem mapM_eq_ite {α β : Type} (f : α → Option β) (xs : List α) :
    xs.mapM f = if ∀ x ∈ xs, (f x).isSome = true then some (xs.filterMap f) else none := by
  induction xs with
  | nil => simp
  | cons x xs ih =>
    rw [List.mapM_cons, ih]
    cases hx : f x with
    | none => simp [hx]
    | some y =>
      simp only [List.forall_mem_cons, hx, Option.isSome_some, true_and,
        List.filterMap_cons_some hx]
      split <;> rfl

theorem setOperand_integers (h : AllIntegers texts) :
    setOperand texts = .intSet (texts.filterMap fun s => int64? s.toList) := by
  unfold AllIntegers at h
  rw [setOperand, mapM_eq_ite, if_pos h]

theorem setOperand_texts (h : ¬ AllIntegers texts) : setOperand texts = .textSet texts := by
  unfold AllIntegers at h
  rw [setOperand, mapM_eq_ite, if_neg h]

theorem accepts_intSet_number (ns : List Int) (n : Number) :
    (FieldCondition.on p .oneOf (.intSet ns)).accepts (.number n) =
      ns.any fun m => compareToInt n m == .eq := rfl

theorem accepts_intSet {ns : List Int} {m : Int} (hm : isInt64 m = true) :
    (FieldCondition.on p .oneOf (.intSet ns)).accepts (.number (.integer m)) = true ↔ m ∈ ns := by
  have hcompare (k : Int) : compareToInt (.integer m) k = .eq ↔ m = k := by
    rw [compareToInt, if_pos hm, Int.compare_eq_eq]
  simp [accepts_intSet_number, hcompare]

theorem accepts_textSet (v : Value) :
    (FieldCondition.on p .oneOf (.textSet texts)).accepts v = true ↔ render v ∈ texts := by
  simp [FieldCondition.accepts, FieldCondition.on, Operand.accepts]

/-- **What a list holds.** IN holds of an integer exactly if some element is read as it and,
unless all elements are integers, is written as it is printed. It holds of a string exactly
if not all elements are integers and the string is one of them. -/
theorem oneOf_accepts (hp : isDate p = false) (texts : List String) :
    ∃ c, Conditions.oneOf p texts = .ok (.ofField c) ∧ c.path = p ∧
      (∀ m, isInt64 m = true → (c.accepts (.number (.integer m)) = true ↔
        ∃ s ∈ texts, int64? s.toList = some m ∧ (AllIntegers texts ∨ s = toString m))) ∧
      ∀ s, c.accepts (.string s) = true ↔ ¬ AllIntegers texts ∧ s ∈ texts := by
  refine ⟨.on p .oneOf (setOperand texts), by rw [Conditions.oneOf, hp]; rfl, rfl, ?_, ?_⟩
  · intro m hm
    by_cases hall : AllIntegers texts
    · rw [setOperand_integers hall, accepts_intSet hm, List.mem_filterMap]
      simp [hall]
    · have hrender : render (.number (.integer m)) = toString m := ofList_intChars m
      have hread : int64? (toString m).toList = some m := by
        rw [← ofList_intChars, String.toList_ofList, int64?_intChars hm]
      rw [setOperand_texts hall, accepts_textSet, hrender]
      constructor
      · exact fun h => ⟨toString m, h, hread, .inr rfl⟩
      · rintro ⟨s, hs, -, h⟩
        exact h.resolve_left hall ▸ hs
  · intro s
    by_cases hall : AllIntegers texts
    · rw [setOperand_integers hall]
      simp [FieldCondition.accepts, FieldCondition.on, Operand.accepts, hall]
    · rw [setOperand_texts hall, accepts_textSet]
      simp [render, hall]

/-- Next to a word, -3 is still found and 7 is not, since no element is written like it. -/
theorem oneOf_accepts_mixed : isDate ⟨"n"⟩ = false ∧
    ∃ c, Conditions.oneOf ⟨"n"⟩ ["007", "x", "-3"] = .ok (.ofField c) ∧
      c.accepts (.number (.integer (-3))) = true ∧ c.accepts (.number (.integer 7)) ≠ true ∧
      c.accepts (.string "007") = true := by
  have hp : isDate ⟨"n"⟩ = false := by decide +kernel
  have hmixed : ¬ AllIntegers ["007", "x", "-3"] := by decide +kernel
  obtain ⟨c, hc, -, hinteger, hstring⟩ := oneOf_accepts hp ["007", "x", "-3"]
  refine ⟨hp, c, hc, ?_, ?_, ?_⟩
  · rw [hinteger (-3) (by decide)]
    exact ⟨"-3", by decide, by decide +kernel, .inr (by decide +kernel)⟩
  · rw [Ne, hinteger 7 (by decide)]
    rintro ⟨s, hs, -, hspelled⟩
    exact absurd (hspelled.resolve_left hmixed ▸ hs) (by decide +kernel)
  · rw [hstring]
    exact ⟨hmixed, by decide⟩

/-- `007` is the number 7 in a list of integers, and is lost as soon as a word joins it. -/
theorem padded_element_lost : int64? "007".toList = some 7 ∧
    (FieldCondition.on ⟨"n"⟩ .oneOf (setOperand ["007"])).accepts (.number (.integer 7)) = true ∧
    Conditions.oneOf ⟨"n"⟩ ["007", "x"] =
      .ok (.ofField (.on ⟨"n"⟩ .oneOf (setOperand ["007", "x"]))) ∧
    (FieldCondition.on ⟨"n"⟩ .oneOf (setOperand ["007", "x"])).accepts
      (.number (.integer 7)) = false := by
  refine ⟨by decide +kernel, by decide +kernel, ?_, by decide +kernel⟩
  rw [Conditions.oneOf, if_neg (by decide +kernel)]

end LogQuery.Compile
