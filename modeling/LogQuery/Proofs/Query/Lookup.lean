import LogQuery.Proofs.Query.Refilling

/-!
# Where a word is looked up

The search for a word goes on behind each occurrence that it finds, so it can pass over
others. A word of path characters is still found where it stands alone, and if it occurs
outside literals at all, the search comes by such a place: an occurrence that runs into it
holds no quote, so it is outside literals as well.
-/

namespace LogQuery.Query

variable {q w before rest : List Char} {i k : Nat}

/-! ## Places of a word -/

theorem length_eq_of_same {found : List Char} (h : lowerAscii found = lowerAscii w) :
    found.length = w.length := by
  rw [← length_lowerAscii, h, length_lowerAscii]

/-- A query is cut at the place of a word. -/
theorem exists_append_of_same (hw : w ≠ []) (hsame : lowerAscii (slice q w i) = lowerAscii w) :
    ∃ before found after, q = before ++ (found ++ after) ∧ before.length = i ∧
      lowerAscii found = lowerAscii w := by
  have hlength := length_eq_of_same hsame
  have hpos := List.length_pos_iff.mpr hw
  have hi : i ≤ q.length := by
    rw [slice, List.length_take, List.length_drop] at hlength
    omega
  refine ⟨q.take i, slice q w i, (q.drop i).drop w.length, ?_, by simpa using hi, hsame⟩
  rw [slice, List.take_append_drop, List.take_append_drop]

theorem same_of_mem_occurrences (hw : w ≠ [])
    (hi : i ∈ occurrences (lowerAscii w) (lowerAscii q)) : lowerAscii (slice q w i) = lowerAscii w := by
  have hfinds := finds_occurrences (lowerAscii_ne_nil hw) (lowerAscii q)
  exact prefix_lowerAscii_iff.mp (hfinds.begins i hi).2

/-- A place that is looked up is one where the word occurs outside literals. -/
theorem mem_of_locate (h : locate q w = some i) : w ≠ [] ∧
    i ∈ occurrences (lowerAscii w) (lowerAscii q) ∧ (quotedFlags q).getD i false = false := by
  by_cases hw : w = []
  · simp [locate, hw] at h
  · rw [locate, if_neg (by simpa using hw)] at h
    obtain halone | ⟨-, hfirst⟩ := Option.or_eq_some_iff.mp h
    · have hfree := List.find?_some halone
      simp only [Bool.and_eq_true, Bool.not_eq_true'] at hfree
      exact ⟨hw, List.mem_of_find?_eq_some halone, hfree.1⟩
    · have hfree := List.find?_some hfirst
      simp only [Bool.not_eq_true'] at hfree
      exact ⟨hw, List.mem_of_find?_eq_some hfirst, hfree⟩

/-! ## Words outside literals -/

/-- What stands in no literal and holds no quote is flagged as its first character is. -/
theorem quotedFrom_run (inside : Option Char) (hinside : ∀ quote ∈ inside, isQuote quote = true)
    {run : List Char} (hrun : ∀ c ∈ run, isQuote c = false) (rest : List Char) :
    quotedFrom inside (run ++ rest) =
      List.replicate run.length inside.isSome ++ quotedFrom inside rest := by
  cases inside with
  | none => exact quotedFrom_quoteless hrun rest
  | some quote =>
    have hquote := hinside quote rfl
    induction run with
    | nil => rfl
    | cons c run ih =>
      obtain ⟨hc, hrun⟩ := List.forall_mem_cons.mp hrun
      have hne : c ≠ quote := by
        rintro rfl
        rw [hquote] at hc
        cases hc
      rw [List.cons_append, quotedFrom_inside hne, ih hrun]
      rfl

/-- The flags before a character that is no quote do not depend on what follows. -/
theorem exists_quotedFrom_append (inside : Option Char)
    (hinside : ∀ quote ∈ inside, isQuote quote = true) (before : List Char)
    (hrest : ∀ c ∈ rest.head?, isQuote c = false) :
    ∃ flags inside', quotedFrom inside (before ++ rest) = flags ++ quotedFrom inside' rest ∧
      flags.length = before.length ∧ ∀ quote ∈ inside', isQuote quote = true := by
  induction inside, before using quotedFrom.induct with
  | case1 inside => exact ⟨[], inside, rfl, rfl, hinside⟩
  | case2 c before hc ih =>
    obtain ⟨flags, inside', h, hlength, hinside'⟩ := ih (by simpa using hc)
    exact ⟨true :: flags, inside', by simp [quotedFrom, hc, h], by simp [hlength], hinside'⟩
  | case3 c before hc ih =>
    obtain ⟨flags, inside', h, hlength, hinside'⟩ := ih hinside
    exact ⟨false :: flags, inside', by simp [quotedFrom, hc, h], by simp [hlength], hinside'⟩
  | case4 quote c hc =>
    -- what follows is no quote, so this one closes the literal
    obtain rfl : c = quote := by simpa using hc
    have hnext : rest.head? ≠ some c := by
      intro hhead
      have hquote := hrest c hhead
      rw [hinside c rfl] at hquote
      cases hquote
    exact ⟨[true], none, quotedFrom_close hnext, rfl, by simp⟩
  | case5 quote c hc d before hd ih =>
    obtain ⟨flags, inside', h, hlength, hinside'⟩ := ih hinside
    exact ⟨true :: true :: flags, inside', by simp [quotedFrom, hc, hd, h], by simp [hlength], hinside'⟩
  | case6 quote c hc d before hd ih =>
    obtain rfl : c = quote := by simpa using hc
    obtain ⟨flags, inside', h, hlength, hinside'⟩ := ih (by simp)
    have hnext : (d :: before ++ rest).head? ≠ some c := by simpa using hd
    exact ⟨true :: flags, inside', by rw [List.cons_append, quotedFrom_close hnext, h]; rfl,
      by simp [hlength], hinside'⟩
  | case7 quote c before hc ih =>
    obtain ⟨flags, inside', h, hlength, hinside'⟩ := ih hinside
    have hne : c ≠ quote := by simpa using hc
    exact ⟨true :: flags, inside', by rw [List.cons_append, quotedFrom_inside hne, h]; rfl,
      by simp [hlength], hinside'⟩

/-- A word of path characters is in a literal as a whole or not at all. -/
theorem quotedFlags_of_same (hw : IsPathText w) (hsame : lowerAscii (slice q w i) = lowerAscii w)
    {n : Nat} (hn : n < w.length) :
    (quotedFlags q).getD (i + n) false = (quotedFlags q).getD i false := by
  obtain ⟨before, found, after, rfl, rfl, hfound⟩ :=
    exists_append_of_same (List.ne_nil_of_length_pos (by omega)) hsame
  have hlength := length_eq_of_same hfound
  have hquotes : ∀ c ∈ found, isQuote c = false := by
    intro c hc
    have hlower : c.toLower ∈ lowerAscii w := hfound ▸ List.mem_map_of_mem hc
    rw [← Bool.not_eq_true]
    exact fun hquote => not_mem_lowerAscii hw (isPathChar_of_isQuote hquote) hlower
  have hhead : ∀ c ∈ (found ++ after).head?, isQuote c = false := by
    obtain ⟨c, found, rfl⟩ := List.exists_cons_of_length_pos (show 0 < found.length by omega)
    rintro d ⟨⟩
    exact hquotes _ List.mem_cons_self
  obtain ⟨flags, inside, hflags, hbefore, hinside⟩ :=
    exists_quotedFrom_append none (by simp) before hhead
  have hget : ∀ m < found.length,
      (quotedFlags (before ++ (found ++ after))).getD (before.length + m) false = inside.isSome := by
    intro m hm
    rw [quotedFlags, hflags, quotedFrom_run inside hinside hquotes, ← hbefore, getD_stretch hm]
  have hfirst := hget 0 (by omega)
  rw [Nat.add_zero] at hfirst
  rw [hget n (by omega), hfirst]

/-! ## The place looked up -/

/-- A word occurs at a place of a query up to ASCII case, with no character in a literal. -/
structure OccursFree (q w : List Char) (i : Nat) : Prop where
  same : lowerAscii (slice q w i) = lowerAscii w
  free : ∀ n < w.length, (quotedFlags q).getD (i + n) false = false

/-- The first place outside literals that the search for a word comes by, which goes from left
to right and passes over each occurrence it finds. -/
structure FirstVisited (q w : List Char) (k : Nat) : Prop where
  visited : k ∈ occurrences (lowerAscii w) (lowerAscii q)
  occurs : OccursFree q w k
  first : ∀ i ∈ occurrences (lowerAscii w) (lowerAscii q), i < k → ¬ OccursFree q w i

theorem occursFree_iff (hw : IsPathText w) (hne : w ≠ []) : OccursFree q w i ↔
    lowerAscii (slice q w i) = lowerAscii w ∧ (quotedFlags q).getD i false = false := by
  refine ⟨fun h => ⟨h.same, h.free 0 (List.length_pos_iff.mpr hne)⟩, fun ⟨hsame, hfree⟩ => ?_⟩
  exact ⟨hsame, fun n hn => by rw [quotedFlags_of_same hw hsame hn, hfree]⟩

/-- If a word occurs outside literals, then the search comes by such a place. -/
theorem exists_visited (hw : IsPathText w) (hne : w ≠ []) (hi : OccursFree q w i) :
    ∃ k, k ∈ occurrences (lowerAscii w) (lowerAscii q) ∧ OccursFree q w k := by
  have hfinds := finds_occurrences (lowerAscii_ne_nil hne) (lowerAscii q)
  obtain hmem | ⟨k, hk, hki, hrun⟩ :=
    hfinds.complete i (by omega) (prefix_lowerAscii_iff.mpr hi.same)
  · exact ⟨i, hmem, hi⟩
  · -- the occurrence that runs into the place is outside literals as well
    have hsame := same_of_mem_occurrences hne hk
    have hn : i - k < w.length := by
      rw [length_lowerAscii] at hrun
      omega
    have hfree := quotedFlags_of_same hw hsame hn
    rw [Nat.add_sub_cancel' (Nat.le_of_lt hki), ((occursFree_iff hw hne).mp hi).2] at hfree
    exact ⟨k, hk, (occursFree_iff hw hne).mpr ⟨hsame, hfree.symm⟩⟩

theorem exists_firstVisited (hw : IsPathText w) (hne : w ≠ []) (hi : OccursFree q w i) :
    ∃ k, FirstVisited q w k := by
  classical
  have hvisited := exists_visited hw hne hi
  obtain ⟨hk, hoccurs⟩ := Nat.find_spec hvisited
  exact ⟨Nat.find hvisited, hk, hoccurs, fun i hi hlt hfree => Nat.find_min hvisited hlt ⟨hi, hfree⟩⟩

/-- A word that stands nowhere is looked up at the first place that the search comes by. -/
theorem locate_firstVisited (hw : IsPathText w) (hne : w ≠ []) (hnone : ∀ i, ¬ StandsAt q w i)
    (hk : FirstVisited q w k) : locate q w = some k := by
  have hfinds := finds_occurrences (lowerAscii_ne_nil hne) (lowerAscii q)
  have halone : (occurrences (lowerAscii w) (lowerAscii q)).find?
      (fun i => !(quotedFlags q).getD i false && standsAlone q i w.length) = none :=
    List.find?_eq_none.mpr fun i hi halone =>
      hnone i (standsAt_iff.mpr ⟨(hfinds.begins i hi).2, halone⟩)
  have hfirst : ∀ i ∈ occurrences (lowerAscii w) (lowerAscii q), i < k →
      (!(quotedFlags q).getD i false) = false := by
    intro i hi hlt
    rw [← Bool.not_eq_true, Bool.not_eq_true']
    exact fun hfree =>
      hk.first i hi hlt ((occursFree_iff hw hne).mpr ⟨same_of_mem_occurrences hne hi, hfree⟩)
  have hfree : (!(quotedFlags q).getD k false) = true := by
    rw [((occursFree_iff hw hne).mp hk.occurs).2]
    rfl
  rw [locate, if_neg (by simpa using hne)]
  simp only [halone, find?_ascending hfinds.ascending hk.visited hfree hfirst, Option.none_or]

/-- Where a word is looked up in a query, if anywhere. -/
structure Located (q w : List Char) (place : Option Nat) : Prop where
  same : ∀ k, place = some k → lowerAscii (slice q w k) = lowerAscii w
  standing : IsPathText w → w ≠ [] → ∀ i, StandsAt q w i →
    ∃ k, place = some k ∧ FirstAt q w k ∧ OccursFree q w k
  visited : IsPathText w → w ≠ [] → (∀ i, ¬ StandsAt q w i) → ∀ i, OccursFree q w i →
    ∃ k, place = some k ∧ FirstVisited q w k
  absent : (∀ i, lowerAscii (slice q w i) = lowerAscii w → (quotedFlags q).getD i false = true) →
    place = none

theorem located_locate (q w : List Char) : Located q w (locate q w) where
  same k hk := by
    obtain ⟨hne, hmem, -⟩ := mem_of_locate hk
    exact same_of_mem_occurrences hne hmem
  standing hw hne i hi := by
    obtain ⟨k, hk⟩ := exists_firstAt hi
    exact ⟨k, locate_firstAt rfl hne (unentangled_of_pathChars hw) hk, hk,
      (occursFree_iff hw hne).mpr ⟨hk.1.same, hk.1.free⟩⟩
  visited hw hne hnone i hi := by
    obtain ⟨k, hk⟩ := exists_firstVisited hw hne hi
    exact ⟨k, locate_firstVisited hw hne hnone hk, hk⟩
  absent hquoted := by
    rw [Option.eq_none_iff_forall_ne_some]
    intro k hk
    obtain ⟨hne, hmem, hfree⟩ := mem_of_locate hk
    rw [hquoted k (same_of_mem_occurrences hne hmem)] at hfree
    cases hfree

end LogQuery.Query
