/-!
# Splitting at a character

`splitOn` cuts a list at every occurrence of a separator; it always gives at
least one part, and no part holds the separator.
-/

namespace LogQuery.Text

variable {α : Type} [BEq α]

/-- The parts between the separators. -/
def splitOn (sep : α) : List α → List (List α)
  | [] => [[]]
  | c :: cs =>
    if c == sep then [] :: splitOn sep cs
    else
      match splitOn sep cs with
      | [] => [[c]]
      | part :: parts => (c :: part) :: parts

theorem splitOn_ne_nil (sep : α) (cs : List α) : splitOn sep cs ≠ [] := by
  cases cs with
  | nil => simp [splitOn]
  | cons c cs =>
    unfold splitOn
    split
    · simp
    · split <;> simp

theorem splitOn_eq_singleton [LawfulBEq α] {sep : α} {cs : List α} (h : sep ∉ cs) :
    splitOn sep cs = [cs] := by
  induction cs with
  | nil => rfl
  | cons c cs ih =>
    obtain ⟨hc, hcs⟩ := not_or.mp (mt List.mem_cons.mpr h)
    have hne : (c == sep) = false := beq_eq_false_iff_ne.mpr fun hs => hc hs.symm
    rw [splitOn, hne, ih hcs]
    rfl

theorem splitOn_append_sep [LawfulBEq α] (sep : α) (as bs : List α) :
    splitOn sep (as ++ sep :: bs) = splitOn sep as ++ splitOn sep bs := by
  induction as with
  | nil => simp [splitOn]
  | cons a as ih =>
    rw [List.cons_append, splitOn, splitOn, ih]
    split
    · rfl
    · cases h : splitOn sep as with
      | nil => exact absurd h (splitOn_ne_nil sep as)
      | cons part parts => rfl

/-- Parts that each end in the separator are cut apart again, and those that hold it
further, with nothing after the last. -/
theorem splitOn_flatMap [LawfulBEq α] (sep : α) (parts : List (List α)) :
    splitOn sep (parts.flatMap (· ++ [sep])) = parts.flatMap (splitOn sep) ++ [[]] := by
  induction parts with
  | nil => rfl
  | cons part parts ih =>
    have hjoined : (part :: parts).flatMap (· ++ [sep]) =
        part ++ sep :: parts.flatMap (· ++ [sep]) := by
      simp
    rw [hjoined, splitOn_append_sep, ih, List.flatMap_cons, List.append_assoc]

theorem not_mem_of_mem_splitOn [LawfulBEq α] {sep : α} {cs part : List α}
    (h : part ∈ splitOn sep cs) : sep ∉ part := by
  induction cs generalizing part with
  | nil => simp_all [splitOn]
  | cons c cs ih =>
    rw [splitOn] at h
    split at h
    next => exact (List.mem_cons.mp h).elim (fun hnil => by simp [hnil]) ih
    next hc =>
      cases hs : splitOn sep cs with
      | nil => exact absurd hs (splitOn_ne_nil sep cs)
      | cons first parts =>
        rw [hs] at h ih
        rcases List.mem_cons.mp h with rfl | hmem
        · have hne : sep ≠ c := fun heq => hc (by simp [heq])
          simp [hne, ih List.mem_cons_self]
        · exact ih (List.mem_cons_of_mem _ hmem)

/-- Cutting changes no part exactly if no part holds the separator. -/
theorem flatMap_splitOn_eq_iff [LawfulBEq α] {sep : α} {parts : List (List α)} :
    parts.flatMap (splitOn sep) = parts ↔ ∀ part ∈ parts, sep ∉ part := by
  constructor
  · intro h part hpart
    rw [← h] at hpart
    obtain ⟨whole, -, hpart⟩ := List.mem_flatMap.mp hpart
    exact not_mem_of_mem_splitOn hpart
  · intro h
    induction parts with
    | nil => rfl
    | cons part parts ih =>
      obtain ⟨hpart, hmore⟩ := List.forall_mem_cons.mp h
      rw [List.flatMap_cons, splitOn_eq_singleton hpart, ih hmore, List.singleton_append]

/-- The dot-separated segments of a name. -/
def dotSegments (s : String) : List String := (splitOn '.' s.toList).map String.ofList

end LogQuery.Text
