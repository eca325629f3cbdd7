import LogQuery.Proofs.Query.Literals
import LogQuery.Proofs.Query.Restoring

/-!
# Restoring beside other literals

A word of path characters cannot reach over a quote, so it is looked up in each of the texts
between the literals of a query by itself: what is found in the literals is left out again,
and no place between them is lost to one inside. So restoring sees the texts between the
literals only, and what the literals hold makes no difference to it.
-/

namespace LogQuery.Query

open Piece

/-- A text that holds path characters only. -/
def IsPathText (w : List Char) : Prop := ∀ c ∈ w, isPathChar c = true

/-- The texts between the literals of a query, the first one with a text before it. -/
def runsFrom (run : List Char) : List Piece → List (List Char)
  | [] => [run]
  | .literal _ :: ps => run :: runsFrom [] ps
  | p :: ps => runsFrom (run ++ p.text) ps

/-- What is seen of a word at a place: whether it stands alone there, and its spelling. -/
def seenAt (q w : List Char) (i : Nat) : Bool × List Char := (standsAlone q i w.length, slice q w i)

/-- What is seen of a word in a text. -/
def sightings (w run : List Char) : List (Bool × List Char) :=
  (occurrences (lowerAscii w) (lowerAscii run)).map (seenAt run w)

/-- The spelling of the first sighting alone, or else of the first one. -/
def chosen (w : List Char) (seen : List (Bool × List Char)) : List Char :=
  (((seen.find? (·.1)).or seen.head?).map (·.2)).getD w

variable {q w needle run rest before after : List Char} {ps ps' : List Piece} {c : Char}

theorem lowerAscii_ne_nil (hne : w ≠ []) : lowerAscii w ≠ [] := by
  simpa [lowerAscii] using hne

@[simp] theorem length_lowerAscii (w : List Char) : (lowerAscii w).length = w.length :=
  List.length_map ..

theorem finds_occurrences (hneedle : needle ≠ []) (cs : List Char) :
    Finds needle cs 0 0 (occurrences needle cs) :=
  finds_occurrencesFrom hneedle

/-! ## Searching between breaks -/

section Breaks

variable {start skip k : Nat}

theorem occurrencesFrom_shift (needle : List Char) (skip k start : Nat) (cs : List Char) :
    occurrencesFrom needle skip (start + k) cs =
      (occurrencesFrom needle skip k cs).map (start + ·) := by
  induction cs generalizing skip k with
  | nil => rfl
  | cons c cs ih =>
    cases skip with
    | succ skip => exact ih skip (k + 1)
    | zero =>
      simp only [occurrencesFrom, Nat.add_assoc, ih]
      split <;> simp

theorem add_length_le_of_mem_occurrences (hne : w ≠ []) {i : Nat}
    (hi : i ∈ occurrences (lowerAscii w) (lowerAscii run)) : i + w.length ≤ run.length := by
  have hbegins := (finds_occurrences (lowerAscii_ne_nil hne) (lowerAscii run)).begins i hi
  have hle := hbegins.2.length_le
  have hpos := List.length_pos_iff.mpr hne
  rw [List.length_drop, length_lowerAscii, length_lowerAscii] at hle
  omega

/-- No occurrence reaches over a character that the needle does not have. -/
theorem prefix_append_break (hrest : ∀ c ∈ rest.head?, c ∉ needle) :
    needle <+: run ++ rest ↔ needle <+: run := by
  refine ⟨fun h => ?_, fun h => h.trans (List.prefix_append ..)⟩
  cases rest with
  | nil => simpa using h
  | cons c rest =>
    have hc : c ∉ needle := hrest c rfl
    have hbreak : run ++ [c] <+: run ++ c :: rest := by simp
    obtain hle | hle := List.prefix_or_prefix_of_prefix h hbreak
    · obtain rfl | hrun := List.prefix_concat_iff.mp hle
      · exact absurd (by simp) hc
      · exact hrun
    · exact absurd (hle.subset (by simp)) hc

/-- The search goes on afresh where the next text begins with a break, or is empty. -/
theorem occurrencesFrom_before_break (hrest : ∀ c ∈ rest.head?, c ∉ needle)
    (hskip : skip ≤ run.length) : occurrencesFrom needle skip start (run ++ rest) =
      occurrencesFrom needle skip start run ++
        occurrencesFrom needle 0 (start + run.length) rest := by
  induction run generalizing skip start with
  | nil =>
    obtain rfl : skip = 0 := by simpa using hskip
    rfl
  | cons c run ih =>
    have hsum : start + (c :: run).length = start + 1 + run.length := by
      rw [List.length_cons]
      omega
    rw [List.cons_append, hsum]
    cases skip with
    | succ skip => exact ih (Nat.le_of_succ_le_succ hskip)
    | zero =>
      have hprefix : needle.isPrefixOf (c :: (run ++ rest)) = needle.isPrefixOf (c :: run) := by
        rw [Bool.eq_iff_iff, List.isPrefixOf_iff_prefix, List.isPrefixOf_iff_prefix, ← List.cons_append,
          prefix_append_break hrest]
      rw [occurrencesFrom, occurrencesFrom, hprefix]
      split
      · next hhere =>
        have hle := (List.isPrefixOf_iff_prefix.mp hhere).length_le
        rw [ih (by rw [List.length_cons] at hle; omega), List.cons_append]
      · rw [ih (Nat.zero_le _)]

/-- The search goes on afresh where a text ends with a break, or is empty. -/
theorem occurrencesFrom_after_break (hneedle : needle ≠ []) (hrun : ∀ c ∈ run.getLast?, c ∉ needle) :
    occurrencesFrom needle 0 start (run ++ rest) =
      occurrencesFrom needle 0 start run ++
        occurrencesFrom needle 0 (start + run.length) rest := by
  cases run using List.reverseRecOn with
  | nil => rfl
  | append_singleton run c =>
    have hc : c ∉ needle := hrun c (by simp)
    have hbreak : ∀ (start : Nat) (rest : List Char), occurrencesFrom needle 0 start (c :: rest) =
        occurrencesFrom needle 0 (start + 1) rest := by
      intro start rest
      rw [occurrencesFrom, if_neg]
      obtain ⟨d, needle, rfl⟩ := List.exists_cons_of_ne_nil hneedle
      simpa using fun h : d = c => absurd (h ▸ List.mem_cons_self) hc
    have hhead : ∀ rest : List Char, ∀ d ∈ (c :: rest).head?, d ∉ needle := by
      rintro rest d ⟨⟩
      exact hc
    rw [List.append_assoc, List.singleton_append, occurrencesFrom_before_break (hhead rest) (Nat.zero_le _),
      occurrencesFrom_before_break (hhead []) (Nat.zero_le _), hbreak, hbreak]
    simp [occurrencesFrom, Nat.add_assoc]

end Breaks

/-! ## Looking at a run by itself -/

theorem isPathChar_of_isQuote (h : isQuote c = true) : isPathChar c = false := by
  simp only [isQuote, Bool.or_eq_true, beq_iff_eq] at h
  rcases h with (rfl | rfl) | rfl <;> decide

theorem not_mem_lowerAscii (hw : IsPathText w) (hc : isPathChar c = false) :
    c.toLower ∉ lowerAscii w := by
  intro hmem
  obtain ⟨d, hd, hlower⟩ := List.mem_map.mp hmem
  rw [← isPathChar_toLower, ← hlower, isPathChar_toLower, hw d hd] at hc
  cases hc

theorem slice_append {found after : List Char} (hfound : found.length = w.length) :
    slice (before ++ (found ++ after)) w before.length = found := by
  rw [slice, List.drop_left, ← hfound, List.take_left]

section Neighbours

variable {α : Type} (p : α → Bool)

theorem any_neighbour_left (before rest : List α) :
    (before.length != 0 && (before ++ rest)[before.length - 1]?.any p) = before.getLast?.any p := by
  cases before using List.reverseRecOn with
  | nil => rfl
  | append_singleton before a => simp

theorem any_neighbour_right (before found after : List α) :
    (before ++ (found ++ after))[before.length + found.length]?.any p = after.head?.any p := by
  rw [← List.append_assoc, ← List.length_append, List.getElem?_append_right (Nat.le_refl _),
    Nat.sub_self, List.head?_eq_getElem?]

theorem any_getLast?_append {before : List α} (hbefore : ∀ a ∈ before.getLast?, p a = false)
    (rest : List α) : (before ++ rest).getLast?.any p = rest.getLast?.any p := by
  rw [List.getLast?_append]
  cases rest.getLast? with
  | some a => rfl
  | none =>
    cases hlast : before.getLast? with
    | none => rfl
    | some a => exact hbefore a hlast

theorem any_head?_append {after : List α} (hafter : ∀ a ∈ after.head?, p a = false)
    (rest : List α) : (rest ++ after).head?.any p = rest.head?.any p := by
  cases rest with
  | cons a rest => rfl
  | nil =>
    cases after with
    | nil => rfl
    | cons a after => exact hafter a rfl

end Neighbours

theorem seenAt_append {found : List Char} (hfound : found.length = w.length) :
    seenAt (before ++ (found ++ after)) w before.length =
      (!before.getLast?.any isPathChar && !after.head?.any isPathChar, found) := by
  rw [seenAt, slice_append hfound, ← hfound, standsAlone, any_neighbour_left, any_neighbour_right]

/-- Between characters of no path a run is seen as if it were the whole query. -/
theorem seenAt_run {i : Nat} (hbefore : ∀ c ∈ before.getLast?, isPathChar c = false)
    (hafter : ∀ c ∈ after.head?, isPathChar c = false) (hi : i + w.length ≤ run.length) :
    seenAt (before ++ (run ++ after)) w (before.length + i) = seenAt run w i := by
  obtain ⟨left, rest, rfl, rfl⟩ : ∃ left rest, run = left ++ rest ∧ left.length = i :=
    ⟨run.take i, run.drop i, (List.take_append_drop ..).symm, by simp; omega⟩
  obtain ⟨found, right, rfl, hfound⟩ : ∃ found right, rest = found ++ right ∧ found.length = w.length :=
    ⟨rest.take w.length, rest.drop w.length, (List.take_append_drop ..).symm, by simp at hi ⊢; omega⟩
  have hquery : before ++ (left ++ (found ++ right) ++ after) =
      (before ++ left) ++ (found ++ (right ++ after)) := by simp
  rw [hquery, ← List.length_append, seenAt_append hfound, seenAt_append hfound,
    any_getLast?_append _ hbefore, any_head?_append _ hafter]

/-- What is seen of a word at those of some places that are outside literals. -/
def seenFree (q w : List Char) (places : List Nat) : List (Bool × List Char) :=
  (places.filter fun i => !(quotedFlags q).getD i false).map (seenAt q w)

theorem seenFree_append (q w : List Char) (places places' : List Nat) :
    seenFree q w (places ++ places') = seenFree q w places ++ seenFree q w places' := by
  rw [seenFree, List.filter_append, List.map_append]
  rfl

theorem restoreChars_eq_chosen {fragment : List Char} (hplain : unmark fragment = w) (hne : w ≠ []) :
    restoreChars q fragment =
      chosen w (seenFree q w (occurrences (lowerAscii w) (lowerAscii q))) := by
  have halone (found : List Nat) (isFree : Nat → Bool) :
      ((found.filter isFree).map (seenAt q w)).find? (·.1) =
        (found.find? fun i => isFree i && standsAlone q i w.length).map (seenAt q w) := by
    rw [List.find?_map, List.find?_filter]
    congr 2
    funext i
    cases isFree i <;> simp [seenAt]
  simp only [restoreChars, locate, hplain, List.isEmpty_eq_false_iff.mpr hne, Bool.false_eq_true,
    if_false, chosen, seenFree, halone, List.head?_map, List.head?_filter, ← Option.map_or,
    Option.map_map]
  split
  · next i hi => rw [hi]; rfl
  · next hnone => rw [hnone]; rfl

/-! ## Literals -/

variable {given others : List Bool}

theorem getD_stretch {isFlagged : Bool} {n i : Nat} (hi : i < n) :
    (given ++ (List.replicate n isFlagged ++ others)).getD (given.length + i) false = isFlagged := by
  rw [List.getD_append_right _ _ _ _ (Nat.le_add_right ..), Nat.add_sub_cancel_left,
    List.getD_append _ _ _ _ (by simpa using hi)]
  simp [List.getD_eq_getElem?_getD, hi]

/-- A run is seen in the query as it is by itself. -/
theorem seenFree_run (hne : w ≠ []) (hq : q = before ++ (run ++ after))
    (hgiven : given.length = before.length)
    (hflags : quotedFlags q = given ++ (List.replicate run.length false ++ others))
    (hbefore : ∀ c ∈ before.getLast?, isPathChar c = false)
    (hafter : ∀ c ∈ after.head?, isPathChar c = false) :
    seenFree q w (occurrencesFrom (lowerAscii w) 0 before.length (lowerAscii run)) =
      sightings w run := by
  have hpos := List.length_pos_iff.mpr hne
  have hfree : ∀ i ∈ occurrences (lowerAscii w) (lowerAscii run),
      (quotedFlags q).getD (before.length + i) false = false := by
    intro i hi
    have hi' := add_length_le_of_mem_occurrences hne hi
    rw [hflags, ← hgiven, getD_stretch (by omega)]
  rw [seenFree, ← Nat.add_zero before.length, occurrencesFrom_shift, List.filter_map, List.map_map,
    ← occurrences, sightings,
    List.filter_eq_self.mpr fun i hi => by rw [Function.comp_apply, hfree i hi, Bool.not_false]]
  refine List.map_congr_left fun i hi => ?_
  rw [Function.comp_apply, hq, seenAt_run hbefore hafter (add_length_le_of_mem_occurrences hne hi)]

/-- What is found inside a literal behind a run is not seen. -/
theorem seenFree_literal {text : List Char} (hne : w ≠ []) (hgiven : given.length = before.length)
    (hflags : quotedFlags q =
      given ++ (List.replicate run.length false ++ (List.replicate text.length true ++ others))) :
    seenFree q w (occurrencesFrom (lowerAscii w) 0 (before.length + run.length) (lowerAscii text)) =
      [] := by
  have hpos := List.length_pos_iff.mpr hne
  have hbehind : before.length + run.length = (given ++ List.replicate run.length false).length := by
    simp [hgiven]
  rw [seenFree, ← Nat.add_zero (before.length + run.length), occurrencesFrom_shift, List.filter_map,
    ← occurrences, List.filter_eq_nil_iff.mpr, List.map_nil, List.map_nil]
  intro i hi
  have hi' := add_length_le_of_mem_occurrences hne hi
  rw [Function.comp_apply, hflags, ← List.append_assoc, hbehind, getD_stretch (by omega)]
  exact Bool.false_ne_true

/-- A run before a literal is seen by itself, and the search goes on afresh. -/
theorem seenFree_break {quote : Char} (hw : IsPathText w) (hne : w ≠ [])
    (hquote : isQuote quote = true) (hq : q = before ++ (run ++ quote :: rest))
    (hgiven : given.length = before.length)
    (hflags : quotedFlags q = given ++ (List.replicate run.length false ++ others))
    (hbefore : ∀ c ∈ before.getLast?, isPathChar c = false) :
    seenFree q w (occurrencesFrom (lowerAscii w) 0 before.length (lowerAscii (run ++ quote :: rest))) =
      sightings w run ++ seenFree q w
        (occurrencesFrom (lowerAscii w) 0 (before.length + run.length) (lowerAscii (quote :: rest))) := by
  have hpath := isPathChar_of_isQuote hquote
  have hhead : ∀ c ∈ (lowerAscii (quote :: rest)).head?, c ∉ lowerAscii w := by
    rintro c ⟨⟩
    exact not_mem_lowerAscii hw hpath
  have hafter : ∀ c ∈ (quote :: rest).head?, isPathChar c = false := by
    rintro c ⟨⟩
    exact hpath
  rw [lowerAscii_append, occurrencesFrom_before_break hhead (Nat.zero_le _), seenFree_append,
    length_lowerAscii, seenFree_run hne hq hgiven hflags hbefore hafter]

/-- The places between literals are seen as in the runs by themselves. -/
theorem seenFree_joined (h : Delimited Quoteless ps) (hw : IsPathText w) (hne : w ≠ [])
    (hq : q = before ++ (run ++ joined ps)) (hgiven : given.length = before.length)
    (hflags : quotedFlags q = given ++ (List.replicate run.length false ++ flags ps))
    (hbefore : ∀ c ∈ before.getLast?, isPathChar c = false) :
    seenFree q w (occurrencesFrom (lowerAscii w) 0 before.length (lowerAscii (run ++ joined ps))) =
      (runsFrom run ps).flatMap (sightings w) := by
  induction h generalizing before run given with
  | nil =>
    have hend : q = before ++ (run ++ []) := hq
    have hrun := seenFree_run hne hend hgiven hflags hbefore (by simp)
    simpa [joined, runsFrom] using hrun
  | @plain p ps hp h ih =>
    have hruns : runsFrom run (p :: ps) = runsFrom (run ++ p.text) ps := by
      have := hp.plain
      cases p <;> first | rfl | cases this
    have hflags' : flags (p :: ps) = List.replicate p.text.length false ++ flags ps := by
      rw [flags, List.flatMap_cons, hp.plain]
      rfl
    rw [joined_cons, ← List.append_assoc run] at hq ⊢
    rw [hruns]
    refine ih hq hgiven ?_ hbefore
    rw [hflags, hflags', List.length_append, List.replicate_add, List.append_assoc (List.replicate ..)]
  | @closed quote ps hquote content hnext h ih =>
    have hpath := isPathChar_of_isQuote hquote
    let text := quotedText quote true content
    have hlast : text.getLast? = some quote := by
      rw [show text = (quote :: doubled quote content) ++ [quote] from rfl, List.getLast?_concat]
    have hflags' : flags (.literal text :: ps) = List.replicate text.length true ++ flags ps := rfl
    rw [joined_cons] at hq ⊢
    rw [hflags'] at hflags
    have hbreak := seenFree_break hw hne hquote hq hgiven hflags hbefore
    have hliteral := seenFree_literal hne hgiven hflags
    have hafter : ∀ c ∈ (lowerAscii text).getLast?, c ∉ lowerAscii w := by
      rw [lowerAscii, List.getLast?_map, hlast]
      rintro c ⟨⟩
      exact not_mem_lowerAscii hw hpath
    -- behind the literal the next run begins
    have hq' : q = (before ++ run ++ text) ++ ([] ++ joined ps) := by
      rw [hq]
      simp [text, Piece.text]
    have hbehind : quotedFlags q =
        (given ++ List.replicate run.length false ++ List.replicate text.length true) ++
          (List.replicate ([] : List Char).length false ++ flags ps) := by
      rw [hflags]
      simp
    have hrest := ih hq' (by simp [hgiven]) hbehind
      (by rw [List.getLast?_append, hlast]; rintro c ⟨⟩; exact hpath)
    calc _ = sightings w run ++ seenFree q w (occurrencesFrom (lowerAscii w) 0
              (before.length + run.length) (lowerAscii (text ++ joined ps))) := hbreak
      _ = sightings w run ++ ([] ++ seenFree q w (occurrencesFrom (lowerAscii w) 0
              (before ++ run ++ text).length (lowerAscii ([] ++ joined ps)))) := by
          rw [lowerAscii_append, occurrencesFrom_after_break (lowerAscii_ne_nil hne) hafter,
            seenFree_append, hliteral]
          simp [Nat.add_assoc]
      _ = (runsFrom run (.literal text :: ps)).flatMap (sightings w) := by
          rw [hrest, runsFrom, List.flatMap_cons, List.nil_append]
  | @unclosed quote hquote content =>
    let text := quotedText quote false content
    have hjoined : joined [.literal text] = text := by simp [joined, Piece.text]
    have hflags' : flags [.literal text] = List.replicate text.length true ++ [] := rfl
    rw [hjoined] at hq ⊢
    rw [hflags'] at hflags
    have hbreak := seenFree_break hw hne hquote hq hgiven hflags hbefore
    have hliteral := seenFree_literal hne hgiven hflags
    calc _ = sightings w run ++ seenFree q w (occurrencesFrom (lowerAscii w) 0
              (before.length + run.length) (lowerAscii text)) := hbreak
      _ = (runsFrom run [.literal text]).flatMap (sightings w) := by
          rw [hliteral]
          simp [runsFrom, sightings, lowerAscii, occurrences, occurrencesFrom]

/-! ## Restoring -/

/-- Restoring looks at the texts between the literals only. -/
theorem restoreChars_runs {fragment : List Char} (hplain : unmark fragment = w) (hw : IsPathText w) :
    restoreChars q fragment = if w = [] then [] else
      chosen w ((runsFrom [] (cut q)).flatMap (sightings w)) := by
  by_cases hne : w = []
  · simp [restoreChars, locate, hplain, hne]
  · have hdelimited := (delimited_cut q).mono fun _ _ => IsCut.quoteless
    have hq : q = [] ++ ([] ++ joined (cut q)) := (joined_cut q).symm
    have hflags : quotedFlags q = [] ++ (List.replicate ([] : List Char).length false ++ flags (cut q)) :=
      (literalsKept q).flags
    have hseen := seenFree_joined hdelimited hw hne hq rfl hflags (by simp)
    rw [if_neg hne, restoreChars_eq_chosen hplain hne, ← hseen, List.nil_append, joined_cut]
    rfl

theorem runsFrom_refilled (h : List.Forall₂ Refilled ps ps') : runsFrom run ps' = runsFrom run ps := by
  induction h generalizing run with
  | nil => rfl
  | @cons p p' ps ps' hp _ ih =>
    cases hp with
    | same hp =>
      cases p with
      | literal => cases hp
      | word | sign => exact ih
    | literal => simp only [runsFrom, ih]

/-- What the literals of a query hold makes no difference to restoring a word of path
characters. -/
theorem restore_refilled (query : List Char) (fragment : String)
    (hw : ∀ c ∈ unmark fragment.toList, isPathChar c = true)
    (ps : List Piece) (hps : List.Forall₂ Refilled (cut query) ps) :
    (Marked.ofChars (joined ps)).restore fragment = (Marked.ofChars query).restore fragment := by
  simp only [Marked.restore, Marked.ofChars]
  rw [restoreChars_runs rfl hw, restoreChars_runs rfl hw, cut_refilled hps, runsFrom_refilled hps]

/-- A longer word and a word between two literals, of which the last one is not closed. -/
def betweenLiterals (content content' : String) : List Piece :=
  .literal (quotedText '\'' true content.toList) :: cut " = line.IDs AND line.Id = ".toList ++
    [.literal (quotedText '"' false content'.toList)]

theorem restore_refilled_lookAlikes :
    (∀ c ∈ unmark "line__dot__id".toList, isPathChar c = true) ∧
    List.Forall₂ Refilled (cut "'' = line.IDs AND line.Id = \"it's".toList)
      (betweenLiterals "line.id line.id" "line.ID") ∧
    (Marked.ofChars (joined (betweenLiterals "line.id line.id" "line.ID"))).restore "line__dot__id" =
      (Marked.ofString "'' = line.IDs AND line.Id = \"it's").restore "line__dot__id" ∧
    (Marked.ofString "'' = line.IDs AND line.Id = \"it's").restore "line__dot__id" = "line.Id" := by
  have hw : ∀ c ∈ unmark "line__dot__id".toList, isPathChar c = true :=
    List.all_eq_true.mp (by decide +kernel)
  have hcut : cut "'' = line.IDs AND line.Id = \"it's".toList = betweenLiterals "" "it's" := by
    decide +kernel
  have hplain : ∀ p ∈ cut " = line.IDs AND line.Id = ".toList, p.isLiteral = false := by
    decide +kernel
  have hrefilled : List.Forall₂ Refilled (cut "'' = line.IDs AND line.Id = \"it's".toList)
      (betweenLiterals "line.id line.id" "line.ID") := by
    rw [hcut]
    exact .cons (.literal rfl true ..)
      (List.rel_append (refilled_plain hplain) (.cons (.literal rfl false ..) .nil))
  exact ⟨hw, hrefilled, restore_refilled _ _ hw _ hrefilled, by decide +kernel⟩

end LogQuery.Query
