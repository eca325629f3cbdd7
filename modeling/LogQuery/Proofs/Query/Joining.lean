import LogQuery.Proofs.Query.Literals

/-!
# Texts side by side

Between two characters of a query that belong to no one word or literal its pieces fall
apart into those of what is before and those of what follows. They are marked apart, too,
if the last sign before has the same mark whatever stands behind it.
-/

namespace LogQuery.Query

open Piece

variable {p : Piece} {ps qs : List Piece} {cs ds : List Char}

/-! ## Delimited pieces -/

theorem Delimited.tail {P : Piece → List Piece → Prop} (h : Delimited P (p :: ps)) :
    Delimited P ps := by
  cases h with
  | plain _ h => exact h
  | closed _ _ _ h => exact h
  | unclosed => exact .nil

theorem Delimited.right {P : Piece → List Piece → Prop} (h : Delimited P (ps ++ qs)) :
    Delimited P qs := by
  induction ps with
  | nil => exact h
  | cons p ps ih => exact ih h.tail

theorem firstChar_left (ps qs : List Piece) :
    firstChar ps = none ∨ firstChar ps = firstChar (ps ++ qs) := by
  cases ps with
  | nil => exact .inl rfl
  | cons => exact .inr rfl

theorem IsCut.left (h : IsCut p (ps ++ qs)) : IsCut p ps := by
  cases p with
  | literal => exact h
  | word w =>
    refine ⟨h.1, h.2.1, ?_⟩
    rcases firstChar_left ps qs with hnone | hsome
    · rw [hnone]
      rfl
    · rw [hsome, h.2.2]
  | sign c => exact h

theorem Delimited.left (h : Delimited IsCut (ps ++ qs)) : Delimited IsCut ps := by
  induction ps with
  | nil => exact .nil
  | cons p ps ih =>
    have hps : Delimited IsCut ps := ih h.tail
    rw [List.cons_append] at h
    generalize hrest : ps ++ qs = rest at h
    cases h with
    | plain hp =>
      subst hrest
      exact .plain hp.left hps
    | closed hq content hnext =>
      subst hrest
      refine .closed hq content (fun heq => hnext ?_) hps
      rcases firstChar_left ps qs with hnone | hsome
      · rw [hnone] at heq
        cases heq
      · rw [← hsome, heq]
    | unclosed hq content =>
      rw [(List.append_eq_nil_iff.mp hrest).1]
      exact .unclosed hq content

theorem firstChar_cut (cs : List Char) : firstChar (cut cs) = cs.head? := by
  rw [(delimited_quoteless cs).firstChar_eq, joined_cut]

theorem cut_word {w : List Char} (hne : w ≠ []) (hw : ∀ c ∈ w, isWordChar c = true)
    (hcs : cs.head?.any isWordChar = false) : cut (w ++ cs) = .word w :: cut cs := by
  have h : Delimited IsCut (.word w :: cut cs) :=
    .plain ⟨hne, hw, by rw [firstChar_cut, hcs]⟩ (delimited_cut cs)
  rw [← cut_joined h, joined_cons, joined_cut, text]

theorem cut_sign {c : Char} (hquote : isQuote c = false) (hword : isWordChar c = false)
    (cs : List Char) : cut (c :: cs) = .sign c :: cut cs := by
  have h : Delimited IsCut (.sign c :: cut cs) := .plain ⟨hquote, hword⟩ (delimited_cut cs)
  rw [← cut_joined h, joined_cons, joined_cut, text, List.singleton_append]

/-! ## Cutting -/

/-- A border between texts is one between pieces or goes through one of them. -/
theorem joined_eq_append (h : joined ps = cs ++ ds) :
    (∃ qs rs, ps = qs ++ rs ∧ joined qs = cs ∧ joined rs = ds) ∨
    ∃ qs p rs x y, ps = qs ++ p :: rs ∧ p.text = x ++ y ∧ x ≠ [] ∧ y ≠ [] ∧
      cs = joined qs ++ x := by
  induction ps generalizing cs with
  | nil =>
    obtain ⟨rfl, rfl⟩ := List.append_eq_nil_iff.mp h.symm
    exact .inl ⟨[], [], rfl, rfl, rfl⟩
  | cons p ps ih =>
    rw [joined_cons] at h
    obtain ⟨cs', rfl, hps⟩ | ⟨y, htext, hds⟩ := List.append_eq_append_iff.mp h
    · obtain ⟨qs, rs, rfl, rfl, rfl⟩ | ⟨qs, p', rs, x, y, rfl, htext, hx, hy, rfl⟩ := ih hps
      · exact .inl ⟨p :: qs, rs, rfl, rfl, rfl⟩
      · exact .inr ⟨p :: qs, p', rs, x, y, rfl, htext, hx, hy, by rw [joined_cons, List.append_assoc]⟩
    · rcases eq_or_ne cs [] with rfl | hcs
      · exact .inl ⟨[], p :: ps, rfl, rfl, by rw [joined_cons, htext, hds, List.nil_append]⟩
      rcases eq_or_ne y [] with rfl | hy
      · refine .inl ⟨[p], ps, rfl, ?_, hds.symm⟩
        rw [joined_cons, htext]
        simp [joined]
      · exact .inr ⟨[], p, ps, cs, y, rfl, htext, hcs, hy, rfl⟩

theorem length_flags (ps : List Piece) : (flags ps).length = (joined ps).length := by
  simp [flags, joined, List.length_flatMap]

/-- All of a literal is flagged. -/
theorem flags_within {x y : List Char} (hp : p.isLiteral = true) (htext : p.text = x ++ y)
    (hy : y ≠ []) : (flags (qs ++ p :: ps)).getD (joined qs ++ x).length false = true := by
  have hlength : 0 < y.length := List.length_pos_of_ne_nil hy
  have hflags : flags (qs ++ p :: ps) =
      flags qs ++ (List.replicate p.text.length true ++ flags ps) := by
    simp [flags, hp]
  rw [hflags, List.length_append, ← length_flags,
    List.getD_append_right _ _ _ _ (Nat.le_add_right ..), Nat.add_sub_cancel_left,
    List.getD_append _ _ _ _ (by simp [htext, hlength])]
  simp [List.getD_eq_getElem?_getD, htext, hlength]

/-- Outside literals and words, what follows is cut as if it stood alone. -/
theorem cut_append (hfree : (quotedFlags (cs ++ ds)).getD cs.length false = false)
    (hcs : cs.getLast?.any isWordChar = false) : cut (cs ++ ds) = cut cs ++ cut ds := by
  have h := delimited_cut (cs ++ ds)
  obtain ⟨qs, rs, hsplit, rfl, rfl⟩ | ⟨qs, p, rs, x, y, hsplit, htext, hx, hy, rfl⟩ :=
    joined_eq_append (joined_cut (cs ++ ds))
  · rw [hsplit] at h
    rw [hsplit, cut_joined h.left, cut_joined h.right]
  · -- a piece across the border is a literal, all of which is flagged, or a word that goes on
    rw [(literalsKept _).flags, hsplit] at hfree
    rw [hsplit] at h
    have hp := h.right
    cases hp with
    | plain hp =>
      cases p with
      | literal => exact hp.elim
      | word w =>
        have hw : ∀ c ∈ x ++ y, isWordChar c = true := htext ▸ hp.2.1
        rw [List.getLast?_append_of_ne_nil _ hx, List.getLast?_eq_some_getLast hx, Option.any_some,
          hw _ (List.mem_append_left _ (List.getLast_mem hx))] at hcs
        cases hcs
      | sign c =>
        have hlength := congrArg List.length htext
        rw [List.length_append] at hlength
        have hx := List.length_pos_of_ne_nil hx
        have hy := List.length_pos_of_ne_nil hy
        simp only [text, List.length_singleton] at hlength
        omega
    | closed | unclosed =>
      rw [flags_within rfl htext hy] at hfree
      cases hfree

/-! ## Marking -/

/-- A piece that has the same mark whatever stands behind it. -/
def Piece.IsSettled : Piece → Prop
  | .literal _ => True
  | .word _ => False
  | .sign c => c ≠ '-' ∧ c ≠ '.' ∧ c ≠ '*'

theorem markSign_of_settled {c : Char} (h : (Piece.sign c).IsSettled) (p : Position)
    (before after : Option Char) : markSign p before c after = [c] := by
  obtain ⟨hdash, hdot, hstar⟩ := h
  simp [markSign, hdash, hdot, hstar]

/-- What follows a settled piece is marked from some position on. -/
theorem markPieces_append (hlast : ∀ p ∈ ps.getLast?, p.IsSettled) (p : Position)
    (before : Option Char) : ∃ p' before',
      markPieces p before (ps ++ qs) = markPieces p before ps ++ markPieces p' before' qs := by
  induction ps generalizing p before with
  | nil => exact ⟨p, before, rfl⟩
  | cons piece ps ih =>
    -- only the last piece sees what follows
    have hnext : piece.IsSettled ∨ firstChar (ps ++ qs) = firstChar ps := by
      cases ps with
      | nil => exact .inl (hlast piece rfl)
      | cons => exact .inr rfl
    have hrest : ∀ q ∈ ps.getLast?, q.IsSettled := by
      cases ps with
      | nil => nofun
      | cons => exact fun q hq => hlast q (by rwa [List.getLast?_cons_cons])
    cases piece with
    | literal cs =>
      obtain ⟨p', before', h⟩ := ih hrest p cs.getLast?
      exact ⟨p', before', by rw [List.cons_append, markPieces, markPieces, h, List.append_assoc]⟩
    | word w =>
      have hnext : firstChar (ps ++ qs) = firstChar ps := hnext.resolve_left id
      let segment := before == some '.' || firstChar ps == some '.'
      obtain ⟨p', before', h⟩ := ih hrest (p.afterWord w segment) w.getLast?
      refine ⟨p', before', ?_⟩
      rw [List.cons_append, markPieces, markPieces, hnext, h, List.append_assoc]
    | sign c =>
      have hsign : markSign p before c (firstChar (ps ++ qs)) = markSign p before c (firstChar ps) := by
        rcases hnext with hsettled | hnext
        · rw [markSign_of_settled hsettled, markSign_of_settled hsettled]
        · rw [hnext]
      obtain ⟨p', before', h⟩ := ih hrest p (some c)
      refine ⟨p', before', ?_⟩
      rw [List.cons_append, markPieces, markPieces, hsign, h, List.append_assoc]

/-- A character that a word, a number or a path goes on after. -/
def goesOn (c : Char) : Bool := isWordChar c || c == '.' || c == '-' || c == '*'

theorem goesOn_eq_false {c : Char} :
    goesOn c = false ↔ isWordChar c = false ∧ c ≠ '.' ∧ c ≠ '-' ∧ c ≠ '*' := by
  simp [goesOn, and_assoc]

theorem any_isWordChar {o : Option Char} (h : o.any goesOn = false) : o.any isWordChar = false := by
  rw [Option.any_eq_false] at h ⊢
  exact fun c hc => (goesOn_eq_false.mp (h c hc)).1

theorem settled_of_last (h : Delimited IsCut ps) (hlast : (joined ps).getLast?.any goesOn = false) :
    ∀ p ∈ ps.getLast?, p.IsSettled := by
  intro p hp
  obtain ⟨qs, rfl⟩ := List.getLast?_eq_some_iff.mp hp
  have hjoined : joined (qs ++ [p]) = joined qs ++ p.text := by simp [joined]
  rw [hjoined] at hlast
  cases p with
  | literal => trivial
  | word w =>
    obtain ⟨hne, hw, -⟩ : IsCut (.word w) [] := by
      cases h.right with
      | plain hp => exact hp
    rw [text, List.getLast?_append_of_ne_nil _ hne, List.getLast?_eq_some_getLast hne, Option.any_some,
      goesOn_eq_false, hw _ (List.getLast_mem hne)] at hlast
    cases hlast.1
  | sign c =>
    rw [text, List.getLast?_concat, Option.any_some, goesOn_eq_false] at hlast
    obtain ⟨-, hdot, hdash, hstar⟩ := hlast
    exact ⟨hdash, hdot, hstar⟩

/-- Marking does not touch a character that neither a word nor a path goes on with. -/
theorem head?_markPieces (hcs : ∀ c ∈ cs.head?, goesOn c = false) (p : Position)
    (before : Option Char) : (markPieces p before (cut cs)).head? = cs.head? := by
  have hfirst := firstChar_cut cs
  have h := delimited_cut cs
  generalize cut cs = ps at hfirst h
  rw [← hfirst] at hcs ⊢
  cases h with
  | nil => rfl
  | @plain piece ps hp =>
    cases piece with
    | literal => exact hp.elim
    | word w =>
      obtain ⟨c, w, rfl⟩ := List.exists_cons_of_ne_nil hp.1
      have hc := (goesOn_eq_false.mp (hcs c rfl)).1
      rw [hp.2.1 c List.mem_cons_self] at hc
      cases hc
    | sign c =>
      obtain ⟨-, hdot, hdash, hstar⟩ := goesOn_eq_false.mp (hcs c rfl)
      rw [markPieces, markSign_of_settled ⟨hdash, hdot, hstar⟩]
      rfl
  | closed => rfl
  | unclosed => rfl

/-- What stands outside literals behind a character that nothing goes on after is marked from
some position on, and what is before as if it stood alone. -/
theorem markChars_append (hfree : (quotedFlags (cs ++ ds)).getD cs.length false = false)
    (hcs : cs.getLast?.any goesOn = false) :
    ∃ p before, markChars (cs ++ ds) = markChars cs ++ markPieces p before (cut ds) := by
  have hsettled := settled_of_last (delimited_cut cs) (by rwa [joined_cut])
  obtain ⟨p, before, h⟩ := markPieces_append hsettled {} none
  exact ⟨p, before, by rw [markChars, cut_append hfree (any_isWordChar hcs), h, markChars]⟩

end LogQuery.Query
