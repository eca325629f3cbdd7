import Mathlib.Data.List.GetD
import LogQuery.Proofs.Query.Delimited

/-!
# Quoted literals

Three scanners read the quotes of a query: the one that cuts it into pieces, the one that
flags quoted characters, and the one that lists the places of literals. They agree on every
text, since each passes over what holds no quote and reads a literal to its end. Marking
changes only what holds no quote, so it keeps the literals, and their contents do not
matter to it.
-/

namespace LogQuery.Query

open Piece

variable {q : Char} {closed : Bool} {content : List Char} {p : Piece} {ps ps' : List Piece}
  {rest : List Char}

/-! ## Places -/

/-- The places of the literals of a text, from each one's first character to behind its last
one, inside a literal if one is given by its quote and its start. -/
def spansFrom : (inside : Option (Char × Nat)) → (position : Nat) → List Char → List (Nat × Nat)
  | none, _, [] => []
  | some (_, first), i, [] => [(first, i)]
  | none, i, c :: cs =>
    if isQuote c then spansFrom (some (c, i)) (i + 1) cs else spansFrom none (i + 1) cs
  | some (q, first), i, c :: cs =>
    if c == q then
      match cs with
      | [] => [(first, i + 1)]
      | d :: ds =>
        if d == q then spansFrom (some (q, first)) (i + 2) ds
        else (first, i + 1) :: spansFrom none (i + 1) (d :: ds)
    else spansFrom (some (q, first)) (i + 1) cs

def quotedSpans (cs : List Char) : List (Nat × Nat) := spansFrom none 0 cs

/-- The literals of a text, as their places tell. -/
def quotedTexts (cs : List Char) : List (List Char) :=
  (quotedSpans cs).map fun span => (cs.drop span.1).take (span.2 - span.1)

/-- The places of the literals among some pieces. -/
def places : Nat → List Piece → List (Nat × Nat)
  | _, [] => []
  | i, p :: ps =>
    (if p.isLiteral then [(i, i + p.text.length)] else []) ++ places (i + p.text.length) ps

/-- The texts of the literals among some pieces. -/
def literals (ps : List Piece) : List (List Char) := (ps.filter isLiteral).map text

/-- For each character of some pieces, whether it belongs to a literal. -/
def flags (ps : List Piece) : List Bool := ps.flatMap fun p => List.replicate p.text.length p.isLiteral

theorem spansFrom_quoteless {cs : List Char} (hcs : ∀ c ∈ cs, isQuote c = false) (i : Nat)
    (rest : List Char) : spansFrom none i (cs ++ rest) = spansFrom none (i + cs.length) rest := by
  induction cs generalizing i with
  | nil => rfl
  | cons c cs ih =>
    obtain ⟨hc, hcs⟩ := List.forall_mem_cons.mp hcs
    rw [List.cons_append, spansFrom, if_neg (by simp [hc]), ih hcs, List.length_cons]
    congr 1
    omega

theorem spansFrom_inside {c : Char} (hc : c ≠ q) (first i : Nat) (rest : List Char) :
    spansFrom (some (q, first)) i (c :: rest) = spansFrom (some (q, first)) (i + 1) rest := by
  cases rest <;> simp [spansFrom, hc]

theorem spansFrom_doubled (q : Char) (first i : Nat) (content rest : List Char) :
    spansFrom (some (q, first)) i (doubled q content ++ rest) =
      spansFrom (some (q, first)) (i + (doubled q content).length) rest := by
  induction content generalizing i with
  | nil => rfl
  | cons c content ih =>
    rw [doubled_cons, List.append_assoc, List.length_append]
    by_cases hc : c = q
    · have hstep : spansFrom (some (q, first)) i ([q, q] ++ (doubled q content ++ rest)) =
          spansFrom (some (q, first)) (i + 2) (doubled q content ++ rest) := by simp [spansFrom]
      rw [if_pos (by simpa using hc), hstep, ih]
      congr 1
      simp
      omega
    · rw [if_neg (by simpa using hc), List.singleton_append, spansFrom_inside hc, ih]
      congr 1
      simp
      omega

theorem spansFrom_close (first i : Nat) (hnext : rest.head? ≠ some q) :
    spansFrom (some (q, first)) i (q :: rest) = (first, i + 1) :: spansFrom none (i + 1) rest := by
  cases rest with
  | nil => simp [spansFrom]
  | cons d rest =>
    have hd : d ≠ q := by simpa using hnext
    simp [spansFrom, hd]

theorem quotedFrom_quoteless {cs : List Char} (hcs : ∀ c ∈ cs, isQuote c = false)
    (rest : List Char) :
    quotedFrom none (cs ++ rest) = List.replicate cs.length false ++ quotedFrom none rest := by
  induction cs with
  | nil => rfl
  | cons c cs ih =>
    obtain ⟨hc, hcs⟩ := List.forall_mem_cons.mp hcs
    rw [List.cons_append, quotedFrom, if_neg (by simp [hc]), ih hcs]
    rfl

theorem quotedFrom_inside {c : Char} (hc : c ≠ q) (rest : List Char) :
    quotedFrom (some q) (c :: rest) = true :: quotedFrom (some q) rest := by
  cases rest <;> simp [quotedFrom, hc]

theorem quotedFrom_doubled (q : Char) (content rest : List Char) :
    quotedFrom (some q) (doubled q content ++ rest) =
      List.replicate (doubled q content).length true ++ quotedFrom (some q) rest := by
  induction content with
  | nil => rfl
  | cons c content ih =>
    rw [doubled_cons]
    by_cases hc : c = q
    · simp [hc, quotedFrom, ih, List.replicate_succ]
    · simp [hc, quotedFrom_inside hc, ih, List.replicate_succ]

theorem quotedFrom_close (hnext : rest.head? ≠ some q) :
    quotedFrom (some q) (q :: rest) = true :: quotedFrom none rest := by
  cases rest with
  | nil => simp [quotedFrom]
  | cons d rest =>
    have hd : d ≠ q := by simpa using hnext
    simp [quotedFrom, hd]

theorem length_quotedText (q : Char) (closed : Bool) (content : List Char) :
    (quotedText q closed content).length =
      1 + (doubled q content).length + if closed then 1 else 0 := by
  cases closed <;> simp [quotedText] <;> omega

/-- The places found in a text are those of the literals among its pieces. -/
theorem spansFrom_joined (h : Delimited Quoteless ps) (i : Nat) :
    spansFrom none i (joined ps) = places i ps := by
  induction h generalizing i with
  | nil => rfl
  | plain hp _ ih =>
    rw [joined_cons, spansFrom_quoteless hp.none, ih, places, hp.plain]
    rfl
  | @closed q ps hq content hnext h ih =>
    rw [h.firstChar_eq] at hnext
    rw [joined_cons, text, places, isLiteral, text, length_quotedText, quotedText, List.cons_append,
      spansFrom, if_pos hq, List.append_assoc, spansFrom_doubled, if_pos rfl,
      List.singleton_append, spansFrom_close _ _ hnext, ih]
    simp [Nat.add_assoc, Nat.add_comm, Nat.add_left_comm]
  | @unclosed q hq content =>
    rw [joined, List.flatMap_singleton, text, places, isLiteral, text, length_quotedText, quotedText,
      spansFrom, if_pos hq, spansFrom_doubled]
    simp [spansFrom, places, Nat.add_assoc]

/-- The characters flagged in a text are those of the literals among its pieces. -/
theorem quotedFlags_joined (h : Delimited Quoteless ps) : quotedFlags (joined ps) = flags ps := by
  unfold quotedFlags flags
  induction h with
  | nil => rfl
  | plain hp _ ih =>
    rw [joined_cons, quotedFrom_quoteless hp.none, ih, List.flatMap_cons, hp.plain]
  | @closed q ps hq content hnext h ih =>
    rw [h.firstChar_eq] at hnext
    rw [joined_cons, List.flatMap_cons, text, isLiteral, length_quotedText, quotedText,
      List.cons_append, quotedFrom, if_pos hq, List.append_assoc, quotedFrom_doubled, if_pos rfl,
      List.singleton_append, quotedFrom_close hnext, ih]
    simp [List.replicate_add]
  | @unclosed q hq content =>
    rw [joined, List.flatMap_singleton, List.flatMap_singleton, text, isLiteral, length_quotedText,
      quotedText, quotedFrom, if_pos hq, quotedFrom_doubled]
    simp [quotedFrom, List.replicate_add]

theorem texts_places (before : List Char) (ps : List Piece) :
    ((places before.length ps).map fun span =>
      ((before ++ joined ps).drop span.1).take (span.2 - span.1)) = literals ps := by
  induction ps generalizing before with
  | nil => rfl
  | cons p ps ih =>
    have hrest := ih (before ++ p.text)
    rw [List.append_assoc, List.length_append] at hrest
    rw [places, List.map_append, joined_cons, hrest, literals, literals]
    cases hp : p.isLiteral <;> simp [hp]

theorem le_of_mem_places {i : Nat} {span : Nat × Nat} (h : span ∈ places i ps) : i ≤ span.1 := by
  induction ps generalizing i with
  | nil => cases h
  | cons p ps ih =>
    rcases List.mem_append.mp h with hmem | hmem
    · split at hmem
      · obtain rfl := List.mem_singleton.mp hmem
        exact Nat.le_refl i
      · cases hmem
    · exact Nat.le_trans (Nat.le_add_right i p.text.length) (ih hmem)

/-- A character is flagged when it is at one of the places. -/
theorem flags_iff (ps : List Piece) (i k : Nat) : (flags ps).getD k false = true ↔
    ∃ span ∈ places i ps, span.1 ≤ i + k ∧ i + k < span.2 := by
  induction ps generalizing i k with
  | nil => simp [flags, places]
  | cons p ps ih =>
    have hflags : flags (p :: ps) = List.replicate p.text.length p.isLiteral ++ flags ps := rfl
    rw [hflags]
    by_cases hk : k < p.text.length
    · rw [List.getD_append _ _ _ _ (by simpa using hk)]
      -- later places begin behind this piece
      have hlater : ∀ span ∈ places (i + p.text.length) ps, ¬ span.1 ≤ i + k := by
        intro span hspan hle
        have hge := le_of_mem_places hspan
        omega
      constructor
      · intro hflag
        have hp : p.isLiteral = true := by simpa [List.getD_eq_getElem?_getD, hk] using hflag
        refine ⟨(i, i + p.text.length), ?_, Nat.le_add_right i k, by simpa using hk⟩
        rw [places, if_pos hp]
        exact List.mem_cons_self
      · rintro ⟨span, hspan, hle, -⟩
        rcases List.mem_append.mp hspan with hspan | hspan
        · split at hspan
          · next hp => simp [List.getD_eq_getElem?_getD, hk, hp]
          · cases hspan
        · exact absurd hle (hlater span hspan)
    · have hsum : i + p.text.length + (k - p.text.length) = i + k := by omega
      rw [List.getD_append_right _ _ _ _ (by simpa using hk), List.length_replicate,
        ih (i + p.text.length), hsum, places]
      refine exists_congr fun span => and_congr_left fun ⟨hle, hlt⟩ => ?_
      rw [List.mem_append]
      refine ⟨.inr, fun hspan => hspan.resolve_left fun hspan => ?_⟩
      split at hspan
      · rw [List.mem_singleton.mp hspan] at hlt
        simp at hlt
        omega
      · cases hspan

theorem quotedTexts_joined (h : Delimited Quoteless ps) : quotedTexts (joined ps) = literals ps := by
  rw [quotedTexts, quotedSpans, spansFrom_joined h]
  exact texts_places [] ps

/-! ## Marking -/

/-- The pieces of a marked text; what is no literal stands as a word. -/
def markedPieces : Position → Option Char → List Piece → List Piece
  | _, _, [] => []
  | p, _, .literal cs :: ps => .literal cs :: markedPieces p cs.getLast? ps
  | p, before, .word w :: ps =>
    let segment := before == some '.' || firstChar ps == some '.'
    .word (markWord w segment) :: markedPieces (p.afterWord w segment) w.getLast? ps
  | p, before, .sign c :: ps =>
    .word (markSign p before c (firstChar ps)) :: markedPieces p (some c) ps

theorem joined_markedPieces (p : Position) (before : Option Char) (ps : List Piece) :
    joined (markedPieces p before ps) = markPieces p before ps := by
  induction ps generalizing p before with
  | nil => rfl
  | cons piece ps ih =>
    cases piece <;> rw [markedPieces, joined_cons, ih, markPieces] <;> rfl

theorem literals_markedPieces (p : Position) (before : Option Char) (ps : List Piece) :
    literals (markedPieces p before ps) = literals ps := by
  unfold literals
  induction ps generalizing p before with
  | nil => rfl
  | cons piece ps ih => cases piece <;> simp [markedPieces, List.filter_cons, isLiteral, ih]

theorem Marker.quoteless (m : Marker) : m.text ≠ [] ∧ ∀ c ∈ m.text, isQuote c = false := by
  have hall : m.text.all (fun c => !isQuote c) = true := by cases m <;> decide
  refine ⟨by cases m <;> decide, fun c hc => ?_⟩
  simpa using List.all_eq_true.mp hall c hc

theorem markWord_quoteless {w : List Char} (segment : Bool) (hne : w ≠ [])
    (hw : ∀ c ∈ w, isQuote c = false) :
    markWord w segment ≠ [] ∧ ∀ c ∈ markWord w segment, isQuote c = false := by
  unfold markWord
  split
  · exact Marker.date.quoteless
  · exact ⟨hne, hw⟩

theorem markSign_quoteless (p : Position) (before : Option Char) {c : Char} (after : Option Char)
    (hc : isQuote c = false) : markSign p before c after ≠ [] ∧
      ∀ d ∈ markSign p before c after, isQuote d = false := by
  unfold markSign
  split
  · exact Marker.dash.quoteless
  split
  · exact Marker.dot.quoteless
  split
  · exact Marker.star.quoteless
  split
  · exact Marker.all.quoteless
  · exact ⟨by simp, by simpa using hc⟩

theorem firstChar_ne_of_quoteless (h : Quoteless p ps) (hq : isQuote q = true) :
    firstChar (p :: ps) ≠ some q := by
  intro hfirst
  have hmem : q ∈ p.text := List.mem_of_mem_head? (Option.mem_def.mpr hfirst)
  rw [h.none q hmem] at hq
  cases hq

/-- A piece that is no literal is marked by what stands around it. -/
theorem markedPieces_plain (hp : IsCut p ps) (position : Position) (before : Option Char) :
    ∃ p' position' before', (∀ ms, Quoteless p' ms) ∧ ∀ ps', firstChar ps' = firstChar ps →
      markedPieces position before (p :: ps') = p' :: markedPieces position' before' ps' := by
  cases p with
  | literal text => exact hp.elim
  | word w =>
    let segment := before == some '.' || firstChar ps == some '.'
    obtain ⟨hne, hw⟩ := markWord_quoteless segment hp.1 hp.quoteless.none
    refine ⟨.word (markWord w segment), position.afterWord w segment, w.getLast?,
      fun _ => ⟨rfl, hne, hw⟩, fun ps' hfirst => ?_⟩
    rw [markedPieces, hfirst]
  | sign c =>
    obtain ⟨hne, hsign⟩ := markSign_quoteless position before (firstChar ps) hp.1
    refine ⟨.word (markSign position before c (firstChar ps)), position, some c,
      fun _ => ⟨rfl, hne, hsign⟩, fun ps' hfirst => ?_⟩
    rw [markedPieces, hfirst]

theorem firstChar_markedPieces (h : Delimited IsCut ps) (hq : isQuote q = true)
    (hnext : firstChar ps ≠ some q) (position : Position) (before : Option Char) :
    firstChar (markedPieces position before ps) ≠ some q := by
  cases h with
  | nil => exact hnext
  | plain hp =>
    obtain ⟨p', position', before', hp', hmarked⟩ := markedPieces_plain hp position before
    rw [hmarked _ rfl]
    exact firstChar_ne_of_quoteless (hp' _) hq
  | closed | unclosed => exact hnext

/-- Marking keeps pieces delimited. -/
theorem delimited_markedPieces (h : Delimited IsCut ps) (position : Position) (before : Option Char) :
    Delimited Quoteless (markedPieces position before ps) := by
  induction h generalizing position before with
  | nil => exact .nil
  | plain hp _ ih =>
    obtain ⟨p', position', before', hp', hmarked⟩ := markedPieces_plain hp position before
    rw [hmarked _ rfl]
    exact .plain (hp' _) (ih position' before')
  | closed hq content hnext h ih =>
    exact .closed hq content (firstChar_markedPieces h hq hnext _ _) (ih _ _)
  | unclosed hq content => exact .unclosed hq content

/-- The contents of literals make no difference to how the rest is marked. -/
theorem refilled_markedPieces (h : Delimited IsCut ps) (hps : List.Forall₂ Refilled ps ps')
    (position : Position) (before : Option Char) :
    List.Forall₂ Refilled (markedPieces position before ps) (markedPieces position before ps') := by
  induction h generalizing ps' position before with
  | nil =>
    cases hps
    exact .nil
  | plain hp _ ih =>
    obtain ⟨p', ps₁, hpiece, hrest, rfl⟩ := List.forall₂_cons_left_iff.mp hps
    obtain rfl := refilled_of_not_literal hpiece hp.quoteless.plain
    obtain ⟨p', position', before', hp', hmarked⟩ := markedPieces_plain hp position before
    rw [hmarked _ rfl, hmarked _ (firstChar_refilled hrest)]
    exact .cons (.same (hp' []).plain) (ih hrest position' before')
  | @closed q ps hq content hnext _ ih =>
    obtain ⟨p', ps₁, hpiece, hrest, rfl⟩ := List.forall₂_cons_left_iff.mp hps
    obtain ⟨content', rfl⟩ := refilled_literal hpiece
    -- both literals end in their quote, which is all that the next piece sees of them
    have hlast : ∀ content, (quotedText q true content).getLast? = some q := by
      intro content
      rw [quotedText, if_pos rfl, ← List.cons_append, List.getLast?_concat]
    rw [markedPieces, markedPieces, hlast, hlast]
    exact .cons (.literal hq true content content') (ih hrest _ _)
  | unclosed hq content =>
    obtain ⟨p', ps₁, hpiece, hrest, rfl⟩ := List.forall₂_cons_left_iff.mp hps
    obtain ⟨content', rfl⟩ := refilled_literal hpiece
    cases hrest
    exact .cons (.literal hq false content content') .nil

theorem markChars_eq (cs : List Char) : markChars cs = joined (markedPieces {} none (cut cs)) :=
  (joined_markedPieces ..).symm

/-- All scanners of a query find the same literals, and marking keeps them. -/
structure LiteralsKept (query : List Char) : Prop where
  flags : quotedFlags query = flags (cut query)
  spans : quotedSpans query = places 0 (cut query)
  flagged : ∀ i, (quotedFlags query).getD i false = true ↔
    ∃ span ∈ quotedSpans query, span.1 ≤ i ∧ i < span.2
  texts : quotedTexts query = literals (cut query)
  marked : quotedTexts (markChars query) = quotedTexts query
  quoted : ∀ text, .literal text ∈ cut query →
    ∃ q closed content, isQuote q = true ∧ text = quotedText q closed content

theorem literalsKept (query : List Char) : LiteralsKept query := by
  have hdelimited := delimited_quoteless query
  have hflags : quotedFlags query = flags (cut query) := by
    have h := quotedFlags_joined hdelimited
    rwa [joined_cut] at h
  have hspans : quotedSpans query = places 0 (cut query) := by
    have h := spansFrom_joined hdelimited 0
    rwa [joined_cut] at h
  have htexts : quotedTexts query = literals (cut query) := by
    have h := quotedTexts_joined hdelimited
    rwa [joined_cut] at h
  refine ⟨hflags, hspans, fun i => ?_, htexts, ?_, fun _ => hdelimited.quoted⟩
  · rw [hflags, hspans]
    simpa using flags_iff (cut query) 0 i
  · rw [markChars_eq, quotedTexts_joined (delimited_markedPieces (delimited_cut query) {} none),
      literals_markedPieces, htexts]

/-- With other contents in its literals a query is cut at the same places. -/
theorem cut_refilled {query : List Char} (h : List.Forall₂ Refilled (cut query) ps) :
    cut (joined ps) = ps := by
  refine cut_joined ((delimited_cut query).refilled
    (fun p ps ps' hfirst hp => ⟨?_, hp.quoteless.plain⟩) h)
  cases p with
  | literal => exact hp
  | word w => exact ⟨hp.1, hp.2.1, by rw [hfirst, hp.2.2]⟩
  | sign c => exact hp

/-- The quoted literals of a query are the same to all its scanners and pass through marking
untouched. With other contents in them the query has just these literals instead, and its
marked text differs only in their contents. -/
theorem literals_untouched (query : List Char) : LiteralsKept query ∧
    ∀ ps, List.Forall₂ Refilled (cut query) ps → cut (joined ps) = ps ∧
      List.Forall₂ Refilled (cut (markChars query)) (cut (markChars (joined ps))) := by
  refine ⟨literalsKept query, fun ps hps => ?_⟩
  have h := delimited_cut query
  refine ⟨cut_refilled hps, ?_⟩
  rw [markChars_eq, markChars_eq, cut_refilled hps]
  exact refilled_cutFrom (delimited_markedPieces h {} none) (refilled_markedPieces h hps {} none) rfl

/-- A query with a literal that holds a quote and one that is not closed. -/
def twoLiterals : List Char := "a-b='it''s' or \"x.".toList

/-- The same with other contents, one of them empty. -/
def otherLiterals : List Piece :=
  [.word ['a'], .sign '-', .word ['b'], .sign '=', .literal "''".toList, .sign ' ',
    .word ['o', 'r'], .sign ' ', .literal "\"\"\"'from *".toList]

theorem twoLiterals_refilled : List.Forall₂ Refilled (cut twoLiterals) otherLiterals ∧
    cut (joined otherLiterals) = otherLiterals ∧
    List.Forall₂ Refilled (cut (markChars twoLiterals)) (cut (markChars (joined otherLiterals))) ∧
    markChars twoLiterals = "a__dash__b='it''s' or \"x.".toList ∧
    markChars (joined otherLiterals) = "a__dash__b='' or \"\"\"'from *".toList := by
  have hcut : cut twoLiterals =
      [.word ['a'], .sign '-', .word ['b'], .sign '=', .literal (quotedText '\'' true "it's".toList),
        .sign ' ', .word ['o', 'r'], .sign ' ', .literal (quotedText '"' false "x.".toList)] := by
    decide +kernel
  have hrefilled : List.Forall₂ Refilled (cut twoLiterals) otherLiterals := by
    rw [hcut]
    exact .cons (.same rfl) (.cons (.same rfl) (.cons (.same rfl) (.cons (.same rfl)
      (.cons (.literal rfl true "it's".toList []) (.cons (.same rfl) (.cons (.same rfl)
        (.cons (.same rfl) (.cons (.literal rfl false "x.".toList "\"'from *".toList) .nil))))))))
  obtain ⟨hother, hmarked⟩ := (literals_untouched twoLiterals).2 otherLiterals hrefilled
  exact ⟨hrefilled, hother, hmarked, by decide +kernel, by decide +kernel⟩

end LogQuery.Query
