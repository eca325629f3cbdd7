import Mathlib.Data.List.Basic
import LogQuery.Log.Lines

/-!
# The numbers of the lines of a log

A reader gives its lines one after the other and numbers them without gaps from
where it stands. `LineReader.toList` bounds its recursion by the number of bytes
left; here it is shown that this bound never cuts a line off. `LineReader.Next` lists
all that reading on can come to. A reader that fails has given the first lines of the
whole, each of them complete.
-/

namespace LogQuery.Log

open LogQuery.Text LogQuery.Store

theorem takeLine_snd_length {bs : Bytes} (h : bs ≠ []) :
    (takeLine bs).2.length < bs.length := by
  have ha := congrArg List.length (takeLine_append bs)
  have hn : (takeLine bs).1.length ≠ 0 := by
    intro hz
    exact h (takeLine_eq_nil.mp (List.length_eq_zero_iff.mp hz))
  rw [List.length_append] at ha
  omega

/-- A line that is complete stays the same, whatever follows. -/
theorem takeLine_append_of_complete {bs : Bytes} (h : (takeLine bs).1.getLast? = some lineFeed)
    (more : Bytes) : takeLine (bs ++ more) = ((takeLine bs).1, (takeLine bs).2 ++ more) := by
  induction bs with
  | nil => cases h
  | cons b bs ih =>
    rw [List.cons_append, takeLine, takeLine]
    rw [takeLine] at h
    by_cases hb : (b == lineFeed) = true
    · rw [if_pos hb, if_pos hb]
    · rw [if_neg hb] at h
      have hline : (takeLine bs).1.getLast? = some lineFeed := by
        cases hl : (takeLine bs).1 with
        | nil =>
          rw [hl] at h
          exact absurd (beq_iff_eq.mpr (Option.some.inj h)) hb
        | cons c cs => rwa [hl, List.getLast?_cons_cons] at h
      rw [if_neg hb, if_neg hb, ih hline]

namespace LineReader

variable {r r' : LineReader} {line : Nat × Bytes} {e : IoError}

/-- All that reading on can come to. -/
inductive Next (r : LineReader) : Except IoError (Option ((Nat × Bytes) × LineReader)) → Prop
  | atEnd (hf : r.failure = none) (hr : r.rest = []) : Next r (.ok none)
  | failed {e : IoError} (hf : r.failure = some e)
      (hl : (takeLine r.rest).1.getLast? ≠ some lineFeed) : Next r (.error e)
  | line (hr : r.rest ≠ []) (hl : r.failure ≠ none → (takeLine r.rest).1.getLast? = some lineFeed) :
      Next r (.ok (some ((r.number + 1, stripTerminatorBytes (takeLine r.rest).1),
        ⟨(takeLine r.rest).2, r.number + 1, r.failure⟩)))

theorem next_next (r : LineReader) : Next r r.next := by
  unfold next
  cases hf : r.failure with
  | none =>
    cases hl : (takeLine r.rest).1.isEmpty with
    | true => simpa [hl] using Next.atEnd hf (takeLine_eq_nil.mp (List.isEmpty_iff.mp hl))
    | false =>
      have hr : r.rest ≠ [] := fun hr => by simp [hr, takeLine] at hl
      simpa [hl, hf] using Next.line hr (fun h => absurd hf h)
  | some e =>
    by_cases hl : (takeLine r.rest).1.getLast? = some lineFeed
    · have hr : r.rest ≠ [] := fun hr => by simp [hr, takeLine] at hl
      simpa [hl, hf] using Next.line hr (fun _ => hl)
    · simpa [hl] using Next.failed hf hl

theorem next_eq_none : r.next = .ok none ↔ r.failure = none ∧ r.rest = [] := by
  constructor
  · intro h
    have hn := next_next r
    rw [h] at hn
    cases hn with
    | atEnd hf hr => exact ⟨hf, hr⟩
  · rintro ⟨hf, hr⟩
    simp [next, hf, hr, takeLine]

theorem failure_of_next_error (h : r.next = .error e) : r.failure = some e := by
  have hn := next_next r
  rw [h] at hn
  cases hn with
  | failed hf => exact hf

/-- A line that is read is numbered one higher and leaves fewer bytes behind. -/
theorem next_eq_some (h : r.next = .ok (some (line, r'))) :
    line.1 = r.number + 1 ∧ r'.number = r.number + 1 ∧ r'.failure = r.failure ∧
      r'.rest.length < r.rest.length := by
  have hn := next_next r
  rw [h] at hn
  cases hn with
  | line hr => exact ⟨rfl, rfl, rfl, takeLine_snd_length hr⟩

/-- More fuel than there are bytes left changes nothing. -/
theorem readUpTo_of_le {n : Nat} (h : r.rest.length ≤ n) : r.readUpTo n = r.toList := by
  induction n using Nat.strongRecOn generalizing r with
  | ind n ih =>
    match hx : r.next with
    | .error _ | .ok none =>
      have he : ∀ k, r.readUpTo k = [] := by
        intro k
        cases k <;> simp [readUpTo, hx]
      rw [toList, he, he]
    | .ok (some (line, r')) =>
      have hl := (next_eq_some hx).2.2.2
      obtain ⟨m, hm⟩ : ∃ m, r.rest.length = m + 1 := ⟨r.rest.length - 1, by omega⟩
      obtain ⟨k, rfl⟩ : ∃ k, n = k + 1 := ⟨n - 1, by omega⟩
      rw [toList, hm, readUpTo, readUpTo, hx]
      by_cases hk : m = k
      · rw [hk]
      · change line :: r'.readUpTo k = line :: r'.readUpTo m
        rw [ih k (by omega) (by omega), ih m (by omega) (by omega)]

theorem toList_of_next_none (h : r.next = .ok none) : r.toList = [] := by
  rw [toList, (next_eq_none.mp h).2]
  rfl

theorem toList_of_next_error (h : r.next = .error e) : r.toList = [] := by
  rw [toList]
  cases r.rest.length with
  | zero => rfl
  | succ n => rw [readUpTo, h]

theorem toList_of_next_some (h : r.next = .ok (some (line, r'))) : r.toList = line :: r'.toList := by
  have hl := (next_eq_some h).2.2.2
  obtain ⟨m, hm⟩ : ∃ m, r.rest.length = m + 1 := ⟨r.rest.length - 1, by omega⟩
  rw [toList, hm, readUpTo, h]
  change line :: r'.readUpTo m = line :: r'.toList
  rw [readUpTo_of_le (by omega)]

/-- The lines that are left are numbered without gaps. -/
theorem map_fst_toList (r : LineReader) :
    r.toList.map Prod.fst = List.range' (r.number + 1) r.toList.length := by
  induction hn : r.rest.length using Nat.strongRecOn generalizing r with
  | ind n ih =>
    match hx : r.next with
    | .error _ => rw [toList_of_next_error hx]; rfl
    | .ok none => rw [toList_of_next_none hx]; rfl
    | .ok (some (line, r')) =>
      obtain ⟨hline, hnumber, -, hl⟩ := next_eq_some hx
      rw [toList_of_next_some hx, List.map_cons, List.length_cons, List.range'_succ,
        ih _ (by omega) r' rfl, hline, hnumber]

theorem toList_ascending (r : LineReader) : (r.toList.map Prod.fst).Pairwise (· < ·) := by
  rw [map_fst_toList]
  exact List.pairwise_lt_range'

/-- Before a failure the first lines of the whole are read. -/
theorem toList_isPrefix {rest whole : Bytes} (h : rest <+: whole) (number : Nat) (e : IoError) :
    (LineReader.mk rest number (some e)).toList <+: (LineReader.mk whole number none).toList := by
  induction hn : rest.length using Nat.strongRecOn generalizing rest whole number with
  | ind n ih =>
    have hx := next_next ⟨rest, number, some e⟩
    generalize hnext : (LineReader.mk rest number (some e)).next = next at hx
    cases hx with
    | atEnd hf => cases hf
    | failed =>
      rw [toList_of_next_error hnext]
      exact List.nil_prefix
    | line hr hl =>
      obtain ⟨more, rfl⟩ := h
      have hsame := takeLine_append_of_complete (hl (by simp)) more
      have hwhole : (LineReader.mk (rest ++ more) number none).next =
          .ok (some ((number + 1, stripTerminatorBytes (takeLine rest).1),
            ⟨(takeLine rest).2 ++ more, number + 1, none⟩)) := by
        have hne : (takeLine rest).1 ≠ [] := fun hnil => hr (takeLine_eq_nil.mp hnil)
        simp [next, hsame, hne]
      rw [toList_of_next_some hnext, toList_of_next_some hwhole, List.cons_prefix_cons]
      exact ⟨rfl, ih _ (hn ▸ takeLine_snd_length hr) (List.prefix_append ..) _ rfl⟩

end LineReader

theorem map_fst_numberedLines (content : Bytes) :
    (numberedLines content).map Prod.fst = List.range' 1 (numberedLines content).length :=
  LineReader.map_fst_toList _

end LogQuery.Log
