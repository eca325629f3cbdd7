import LogQuery.Proofs.Query.Marks

/-!
# Restoring the words of a query

Restoring looks a word up in the query up to ASCII case, from left to right and without
overlap. It comes back with the spelling of the first place where the word stands by itself
outside literals, which need not be the place that it was taken from.
-/

namespace LogQuery.Query

section Searching

variable {needle cs : List Char} {skip start i k : Nat}

/-- What a search for a needle finds beyond the characters to skip: places where the needle
begins, in ascending order, and each one that does not run into a place found before it. -/
structure Finds (needle cs : List Char) (skip start : Nat) (found : List Nat) : Prop where
  begins : ∀ i ∈ found, start + skip ≤ i ∧ needle <+: cs.drop (i - start)
  ascending : found.Pairwise (· < ·)
  complete : ∀ i, start + skip ≤ i → needle <+: cs.drop (i - start) →
    i ∈ found ∨ ∃ j ∈ found, j < i ∧ i < j + needle.length

theorem drop_sub_cons {c : Char} (h : start + 1 ≤ i) :
    (c :: cs).drop (i - start) = cs.drop (i - (start + 1)) := by
  rw [show i - start = i - (start + 1) + 1 by omega, List.drop_succ_cons]

theorem Finds.cons {c : Char} {found : List Nat} (h : Finds needle cs skip (start + 1) found) :
    Finds needle (c :: cs) (skip + 1) start found where
  begins i hi := by
    obtain ⟨hle, hbegins⟩ := h.begins i hi
    exact ⟨by omega, by rwa [drop_sub_cons (by omega)]⟩
  ascending := h.ascending
  complete i hle hbegins := by
    rw [drop_sub_cons (by omega)] at hbegins
    exact h.complete i (by omega) hbegins

theorem finds_occurrencesFrom (hneedle : needle ≠ []) :
    Finds needle cs skip start (occurrencesFrom needle skip start cs) := by
  induction cs generalizing skip start with
  | nil => exact ⟨by simp [occurrencesFrom], by simp [occurrencesFrom], by simp [hneedle]⟩
  | cons c cs ih =>
    cases skip with
    | succ skip => exact ih.cons
    | zero =>
      rw [occurrencesFrom]
      split
      · next hhere =>
        -- the rest of the needle is skipped, and what begins there runs into this place
        have hlength : needle.length - 1 + 1 = needle.length := by
          have := List.length_pos_iff.mpr hneedle
          omega
        have hrest : Finds needle (c :: cs) (needle.length - 1 + 1) start
            (occurrencesFrom needle (needle.length - 1) (start + 1) cs) := ih.cons
        rw [hlength] at hrest
        refine ⟨?_, ?_, fun i hle hbegins => ?_⟩
        · refine List.forall_mem_cons.mpr ⟨⟨by omega, by simpa using hhere⟩, fun i hi => ?_⟩
          have := hrest.begins i hi
          exact ⟨by omega, this.2⟩
        · refine List.pairwise_cons.mpr ⟨fun i hi => ?_, hrest.ascending⟩
          have := (hrest.begins i hi).1
          omega
        · by_cases hi : i = start
          · exact .inl (by simp [hi])
          by_cases hrun : i < start + needle.length
          · exact .inr ⟨start, List.mem_cons_self, by omega, hrun⟩
          · exact (hrest.complete i (by omega) hbegins).imp (List.mem_cons_of_mem _)
              fun ⟨j, hj, h⟩ => ⟨j, List.mem_cons_of_mem _ hj, h⟩
      · next hhere =>
        have hrest : Finds needle (c :: cs) 1 start (occurrencesFrom needle 0 (start + 1) cs) := ih.cons
        refine ⟨fun i hi => ?_, hrest.ascending, fun i hle hbegins => ?_⟩
        · have := hrest.begins i hi
          exact ⟨by omega, this.2⟩
        · have hi : i ≠ start := by
            rintro rfl
            simp at hbegins
            simp [hbegins] at hhere
          exact hrest.complete i (by omega) hbegins

theorem find?_ascending {found : List Nat} {p : Nat → Bool} (h : found.Pairwise (· < ·))
    (hk : k ∈ found) (hp : p k = true) (hfirst : ∀ i ∈ found, i < k → p i = false) :
    found.find? p = some k := by
  obtain ⟨before, after, rfl⟩ := List.append_of_mem hk
  refine List.find?_eq_some_iff_append.mpr ⟨hp, before, after, rfl, fun i hi => ?_⟩
  have hlt : i < k := (List.pairwise_append.mp h).2.2 i hi k List.mem_cons_self
  rw [hfirst i (List.mem_append_left _ hi) hlt, Bool.not_false]

end Searching

section Standing

variable {q w plain : List Char} {i k : Nat}

/-- The characters of a query from a place on, as many as a word has. -/
def slice (q w : List Char) (i : Nat) : List Char := (q.drop i).take w.length

/-- A word stands at a place of a query up to ASCII case, outside quoted literals and beside
no character of a path. -/
structure StandsAt (q w : List Char) (i : Nat) : Prop where
  same : lowerAscii (slice q w i) = lowerAscii w
  free : (quotedFlags q).getD i false = false
  left : ∀ c, 0 < i → q[i - 1]? = some c → isPathChar c = false
  right : ∀ c, q[i + w.length]? = some c → isPathChar c = false

/-- The first place where a word stands up to ASCII case. -/
def FirstAt (q w : List Char) (k : Nat) : Prop := StandsAt q w k ∧ ∀ i < k, ¬ StandsAt q w i

theorem exists_firstAt (h : StandsAt q w i) : ∃ k, FirstAt q w k := by
  classical
  exact ⟨Nat.find ⟨i, h⟩, Nat.find_spec _, fun _ hlt => Nat.find_min _ hlt⟩

/-- Where a word stands, no other place with its characters runs into it. -/
def Unentangled (q w : List Char) : Prop :=
  ∀ k, StandsAt q w k → ∀ i < k, lowerAscii (slice q w i) = lowerAscii w → i + w.length ≤ k

theorem isPathChar_toLower (c : Char) : isPathChar c.toLower = isPathChar c := by
  by_cases h : c.isUpper
  · have hlower : c.toLower.isAlphanum := by simp [Char.isAlphanum, Char.isAlpha, h]
    have hc : c.isAlphanum := by simp [Char.isAlphanum, Char.isAlpha, h]
    simp [isPathChar, hlower, hc]
  · rw [Char.toLower_eq_of_not_isUpper h]

/-- A word of ASCII characters cannot run into a place where it stands: the character
before that place would be its own. -/
theorem unentangled_of_pathChars (h : ∀ c ∈ w, isPathChar c = true) : Unentangled q w := by
  intro k hk i hik hsame
  by_contra hlt
  have hn : k - 1 - i < w.length := by omega
  have hget := congrArg (·[k - 1 - i]?) hsame
  simp only [lowerAscii, List.getElem?_map, slice, List.getElem?_take_of_lt hn, List.getElem?_drop,
    List.getElem?_eq_getElem hn, Option.map_some, Option.map_eq_some_iff] at hget
  obtain ⟨c, hc, hlower⟩ := hget
  rw [show i + (k - 1 - i) = k - 1 by omega] at hc
  have hpath := h _ (List.getElem_mem hn)
  rw [← isPathChar_toLower, ← hlower, isPathChar_toLower, hk.left c (by omega) hc] at hpath
  exact Bool.false_ne_true hpath

theorem standsAlone_iff : standsAlone q i w.length = true ↔
    (∀ c, 0 < i → q[i - 1]? = some c → isPathChar c = false) ∧
      ∀ c, q[i + w.length]? = some c → isPathChar c = false := by
  unfold standsAlone
  cases q[i - 1]? <;> cases q[i + w.length]? <;>
    simp [Nat.pos_iff_ne_zero, or_iff_not_imp_left]

/-- A place where a word begins up to ASCII case, by its characters. -/
theorem prefix_lowerAscii_iff :
    lowerAscii w <+: (lowerAscii q).drop i ↔ lowerAscii (slice q w i) = lowerAscii w := by
  rw [List.prefix_iff_eq_take, slice, lowerAscii, lowerAscii, List.length_map, ← List.map_drop,
    ← List.map_take]
  exact eq_comm

theorem standsAt_iff : StandsAt q w i ↔ lowerAscii w <+: (lowerAscii q).drop i ∧
    (!(quotedFlags q).getD i false && standsAlone q i w.length) = true := by
  rw [Bool.and_eq_true, standsAlone_iff, prefix_lowerAscii_iff, Bool.not_eq_true']
  exact ⟨fun h => ⟨h.same, h.free, h.left, h.right⟩, fun ⟨hs, hf, hl, hr⟩ => ⟨hs, hf, hl, hr⟩⟩

/-- A word is looked up at the first place where it stands. -/
theorem locate_firstAt (hplain : lowerAscii plain = lowerAscii w) (hw : w ≠ [])
    (hclear : Unentangled q w) (hk : FirstAt q w k) : locate q plain = some k := by
  have hlength : plain.length = w.length := by
    simpa [lowerAscii] using congrArg List.length hplain
  have hne : plain ≠ [] := List.ne_nil_of_length_pos (hlength ▸ List.length_pos_iff.mpr hw)
  have hfinds : Finds (lowerAscii w) (lowerAscii q) 0 0 (occurrences (lowerAscii w) (lowerAscii q)) :=
    finds_occurrencesFrom (by simpa [lowerAscii] using hw)
  obtain ⟨hbegins, halone⟩ := standsAt_iff.mp hk.1
  have hfound : k ∈ occurrences (lowerAscii w) (lowerAscii q) := by
    obtain hk' | ⟨i, hi, hik, hrun⟩ := hfinds.complete k (by omega) hbegins
    · exact hk'
    · have hle := hclear k hk.1 i hik (prefix_lowerAscii_iff.mp (hfinds.begins i hi).2)
      rw [lowerAscii, List.length_map] at hrun
      omega
  rw [locate, if_neg (by simpa using hne), hplain, hlength]
  have hfirst : ∀ i ∈ occurrences (lowerAscii w) (lowerAscii q), i < k →
      (!(quotedFlags q).getD i false && standsAlone q i w.length) = false := by
    intro i hi hik
    rw [← Bool.not_eq_true]
    exact fun h => hk.2 i hik (standsAt_iff.mpr ⟨(hfinds.begins i hi).2, h⟩)
  simp only [find?_ascending hfinds.ascending hfound halone hfirst, Option.some_or]

/-- Identifier words with dots between them. -/
def IsDottedPath (w : List Char) : Prop :=
  ∃ words : List (List Char), words ≠ [] ∧
    (∀ word ∈ words, word ≠ [] ∧ ∀ c ∈ word, isWordChar c = true) ∧ w = ['.'].intercalate words

theorem IsDottedPath.ne_nil (h : IsDottedPath w) : w ≠ [] := by
  obtain ⟨words, hne, hwords, rfl⟩ := h
  obtain ⟨word, words, rfl⟩ := List.exists_cons_of_ne_nil hne
  obtain ⟨hword, -⟩ := hwords word List.mem_cons_self
  obtain ⟨c, word, rfl⟩ := List.exists_cons_of_ne_nil hword
  cases words <;> simp [List.intercalate]

theorem isDottedPath_pair {a b : List Char} (ha : (!a.isEmpty && a.all isWordChar) = true)
    (hb : (!b.isEmpty && b.all isWordChar) = true) (h : w = a ++ '.' :: b) : IsDottedPath w := by
  simp only [Bool.and_eq_true, Bool.not_eq_true', List.isEmpty_eq_false_iff, List.all_eq_true] at ha hb
  exact ⟨[a, b], by simp, by simp [ha.1, hb.1]; exact ⟨ha.2, hb.2⟩, by simp [h, List.intercalate]⟩

/-- A marked word that stands in a query comes back as itself exactly if the first place
where it stands up to ASCII case has its spelling. -/
theorem restore_markChars_iff (hw : IsDottedPath w) (hstands : StandsAt q w i)
    (hunmark : lowerAscii (unmark (markChars w)) = lowerAscii w) (hclear : Unentangled q w) :
    (Marked.ofChars q).restore (String.ofList (markChars w)) = String.ofList w ↔
      ∀ k, FirstAt q w k → slice q w k = w := by
  obtain ⟨k, hk⟩ := exists_firstAt hstands
  have hlength : (unmark (markChars w)).length = w.length := by
    simpa [lowerAscii] using congrArg List.length hunmark
  have hrestore : restoreChars q (markChars w) = slice q w k := by
    simp only [restoreChars, locate_firstAt hunmark hw.ne_nil hclear hk, hlength, slice]
  rw [Marked.restore, String.toList_ofList, Marked.ofChars, hrestore, String.ofList_inj]
  refine ⟨fun h k' hk' => ?_, fun h => h k hk⟩
  obtain rfl : k' = k := by
    obtain hlt | heq | hlt := lt_trichotomy k' k
    · exact absurd hk'.1 (hk.2 k' hlt)
    · exact heq
    · exact absurd hk.1 (hk'.2 k hlt)
  exact h

/-- A longer word and a literal stand before the word. -/
def threeIds : List Char := "SELECT line.idx FROM app WHERE 'line.ID' = line.Id".toList

theorem threeIds_restored : IsDottedPath "line.Id".toList ∧ StandsAt threeIds "line.Id".toList 43 ∧
    lowerAscii (unmark (markChars "line.Id".toList)) = lowerAscii "line.Id".toList ∧
    Unentangled threeIds "line.Id".toList ∧
    ∀ k, FirstAt threeIds "line.Id".toList k → slice threeIds "line.Id".toList k = "line.Id".toList := by
  have hpath : IsDottedPath "line.Id".toList :=
    isDottedPath_pair (a := "line".toList) (b := "Id".toList) (by decide +kernel) (by decide +kernel) rfl
  have hstands : StandsAt threeIds "line.Id".toList 43 := standsAt_iff.mpr (by decide +kernel)
  have hunmark : lowerAscii (unmark (markChars "line.Id".toList)) = lowerAscii "line.Id".toList := by
    decide +kernel
  have hclear : Unentangled threeIds "line.Id".toList :=
    unentangled_of_pathChars (List.all_eq_true.mp (by decide +kernel))
  have hrestore : (Marked.ofChars threeIds).restore (String.ofList (markChars "line.Id".toList)) =
      String.ofList "line.Id".toList := by decide +kernel
  exact ⟨hpath, hstands, hunmark, hclear,
    (restore_markChars_iff hpath hstands hunmark hclear).mp hrestore⟩

/-- Two fields of one name up to case. -/
def twoIds : List Char := "SELECT line.ID, line.id FROM app".toList

/-- The second field comes back in the spelling of the first one. -/
theorem second_spelling_lost : IsDottedPath "line.id".toList ∧ StandsAt twoIds "line.id".toList 16 ∧
    slice twoIds "line.id".toList 16 = "line.id".toList ∧
    lowerAscii (unmark (markChars "line.id".toList)) = lowerAscii "line.id".toList ∧
    (Marked.ofChars twoIds).restore (String.ofList (markChars "line.id".toList)) = "line.ID" ∧
    "line.ID" ≠ String.ofList "line.id".toList := by
  refine ⟨isDottedPath_pair (a := "line".toList) (b := "id".toList) (by decide +kernel)
    (by decide +kernel) rfl, standsAt_iff.mpr (by decide +kernel), ?_⟩
  decide +kernel

end Standing

end LogQuery.Query
