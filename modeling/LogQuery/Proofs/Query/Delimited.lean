import Mathlib.Data.List.Forall2
import LogQuery.Query.Marking

/-!
# Delimited pieces

A literal stands in quotes, with quotes of the same kind twice inside it. Pieces are
delimited when each ends where the next one begins, whatever the contents of literals; such
are the pieces of every text, and cutting the text of such pieces gives them back.
-/

namespace LogQuery.Query

open Piece

/-! ## Literals -/

/-- A text with every quote of a kind in it twice. -/
def doubled (q : Char) (content : List Char) : List Char :=
  content.flatMap fun c => if c == q then [q, q] else [c]

/-- A literal with its quotes; one that is not closed has only the first. -/
def quotedText (q : Char) (closed : Bool) (content : List Char) : List Char :=
  q :: (doubled q content ++ if closed then [q] else [])

def Piece.isLiteral : Piece → Bool
  | literal _ => true
  | _ => false

/-- Two pieces that are the same, or literals with other contents. -/
inductive Refilled : Piece → Piece → Prop
  | same {p : Piece} (hp : p.isLiteral = false) : Refilled p p
  | literal {q : Char} (hq : isQuote q = true) (closed : Bool) (content content' : List Char) :
    Refilled (.literal (quotedText q closed content)) (.literal (quotedText q closed content'))

variable {q : Char} {closed : Bool} {content content' : List Char} {p : Piece} {ps ps' : List Piece}

theorem doubled_concat (q : Char) (content : List Char) (c : Char) :
    doubled q (content ++ [c]) = doubled q content ++ if c == q then [q, q] else [c] := by
  simp [doubled]

theorem doubled_cons (q : Char) (c : Char) (content : List Char) :
    doubled q (c :: content) = (if c == q then [q, q] else [c]) ++ doubled q content := rfl

theorem count_doubled (q : Char) (content : List Char) :
    (doubled q content).count q = 2 * content.count q := by
  induction content with
  | nil => rfl
  | cons c content ih =>
    rw [doubled_cons, List.count_append, ih, List.count_cons]
    by_cases hc : c = q
    · simp only [hc, beq_self_eq_true, if_true]
      simp
      omega
    · simp [hc]

/-- A literal is closed or not: it holds its quote an even number of times or an odd one. -/
theorem closed_inj {closed' : Bool} (h : quotedText q closed content = quotedText q closed' content') :
    closed = closed' := by
  have hcount := congrArg (List.count q) h
  rw [quotedText, quotedText, List.count_cons_self, List.count_cons_self, List.count_append,
    List.count_append, count_doubled, count_doubled] at hcount
  cases closed <;> cases closed' <;> simp at hcount ⊢ <;> omega

theorem refilled_literal (h : Refilled (.literal (quotedText q closed content)) p) :
    ∃ content', p = .literal (quotedText q closed content') := by
  generalize hx : Piece.literal (quotedText q closed content) = x at h
  cases h with
  | same hp =>
    rw [← hx] at hp
    cases hp
  | @literal q' hq closed' content₁ content₂ =>
    have htext := Piece.literal.inj hx
    obtain rfl : q = q' := (List.cons.inj htext).1
    obtain rfl := closed_inj htext
    exact ⟨content₂, rfl⟩

theorem refilled_of_not_literal {p' : Piece} (h : Refilled p p') (hp : p.isLiteral = false) :
    p' = p := by
  cases h with
  | same => rfl
  | literal => cases hp

theorem Refilled.head? {p' : Piece} (h : Refilled p p') : p'.text.head? = p.text.head? := by
  cases h <;> rfl

theorem firstChar_refilled (h : List.Forall₂ Refilled ps ps') : firstChar ps' = firstChar ps := by
  cases h with
  | nil => rfl
  | cons hp _ => exact hp.head?

theorem joined_cons (p : Piece) (ps : List Piece) : joined (p :: ps) = p.text ++ joined ps := rfl

/-! ## Delimited pieces -/

/-- Pieces each of which ends where the next one begins. `Plain` says what pieces may stand
between the literals, and before which others. -/
inductive Delimited (Plain : Piece → List Piece → Prop) : List Piece → Prop
  | nil : Delimited Plain []
  | plain {p : Piece} {ps : List Piece} (hp : Plain p ps) (h : Delimited Plain ps) :
    Delimited Plain (p :: ps)
  | closed {q : Char} {ps : List Piece} (hq : isQuote q = true) (content : List Char)
    (hnext : firstChar ps ≠ some q) (h : Delimited Plain ps) :
    Delimited Plain (.literal (quotedText q true content) :: ps)
  | unclosed {q : Char} (hq : isQuote q = true) (content : List Char) :
    Delimited Plain [.literal (quotedText q false content)]

/-- Some text without quotes. -/
structure Quoteless (p : Piece) (ps : List Piece) : Prop where
  plain : p.isLiteral = false
  some : p.text ≠ []
  none : ∀ c ∈ p.text, isQuote c = false

/-- A sign, or a word as long as it can be. -/
def IsCut : Piece → List Piece → Prop
  | .literal _, _ => False
  | .word w, ps => w ≠ [] ∧ (∀ c ∈ w, isWordChar c = true) ∧ (firstChar ps).any isWordChar = false
  | .sign c, _ => isQuote c = false ∧ isWordChar c = false

theorem isQuote_of_isWordChar {c : Char} (h : isWordChar c = true) : isQuote c = false := by
  rw [Bool.eq_false_iff]
  intro hq
  simp only [isQuote, Bool.or_eq_true, beq_iff_eq] at hq
  rcases hq with (rfl | rfl) | rfl <;> exact absurd h (by decide)

theorem IsCut.quoteless (h : IsCut p ps) : Quoteless p ps := by
  cases p with
  | literal text => exact h.elim
  | word w => exact ⟨rfl, h.1, fun c hc => isQuote_of_isWordChar (h.2.1 c hc)⟩
  | sign c => exact ⟨rfl, by simp [text], by simpa [text] using h.1⟩

theorem Delimited.mono {P Q : Piece → List Piece → Prop} (hPQ : ∀ p ps, P p ps → Q p ps)
    (h : Delimited P ps) : Delimited Q ps := by
  induction h with
  | nil => exact .nil
  | plain hp _ ih => exact .plain (hPQ _ _ hp) ih
  | closed hq content hnext _ ih => exact .closed hq content hnext ih
  | unclosed hq content => exact .unclosed hq content

/-- Other contents make no difference to where pieces end. -/
theorem Delimited.refilled {P : Piece → List Piece → Prop}
    (hP : ∀ p ps ps', firstChar ps' = firstChar ps → P p ps → P p ps' ∧ p.isLiteral = false)
    (h : Delimited P ps) (hr : List.Forall₂ Refilled ps ps') : Delimited P ps' := by
  induction h generalizing ps' with
  | nil =>
    cases hr
    exact .nil
  | plain hp _ ih =>
    obtain ⟨p', ps₁, hpiece, hrest, rfl⟩ := List.forall₂_cons_left_iff.mp hr
    obtain ⟨hp', hplain⟩ := hP _ _ _ (firstChar_refilled hrest) hp
    rw [refilled_of_not_literal hpiece hplain]
    exact .plain hp' (ih hrest)
  | closed hq content hnext _ ih =>
    obtain ⟨p', ps₁, hpiece, hrest, rfl⟩ := List.forall₂_cons_left_iff.mp hr
    obtain ⟨content', rfl⟩ := refilled_literal hpiece
    exact .closed hq content' (by rwa [firstChar_refilled hrest]) (ih hrest)
  | unclosed hq content =>
    obtain ⟨p', ps₁, hpiece, hrest, rfl⟩ := List.forall₂_cons_left_iff.mp hr
    obtain ⟨content', rfl⟩ := refilled_literal hpiece
    cases hrest
    exact .unclosed hq content'

theorem Delimited.firstChar_eq (h : Delimited Quoteless ps) : firstChar ps = (joined ps).head? := by
  cases h with
  | nil => rfl
  | @plain p ps hp =>
    rw [joined_cons, List.head?_append_of_ne_nil _ hp.some]
    rfl
  | closed => rfl
  | unclosed => rfl

/-- Every literal among delimited pieces stands in quotes. -/
theorem Delimited.quoted (h : Delimited Quoteless ps) {text : List Char}
    (ht : .literal text ∈ ps) :
    ∃ q closed content, isQuote q = true ∧ text = quotedText q closed content := by
  induction h with
  | nil => cases ht
  | plain hp _ ih =>
    rcases List.mem_cons.mp ht with rfl | ht
    · cases hp.plain
    · exact ih ht
  | @closed q ps hq content _ _ ih =>
    rcases List.mem_cons.mp ht with he | ht
    · exact ⟨q, true, content, hq, Piece.literal.inj he⟩
    · exact ih ht
  | @unclosed q hq content =>
    exact ⟨q, false, content, hq, Piece.literal.inj (List.mem_singleton.mp ht)⟩

/-! ## Cutting -/

namespace Piece.Reading

/-- Whether what is being read holds no quote. -/
def isPlain : Reading → Bool
  | between | word _ => true
  | literal _ _ | closing _ _ => false

/-- Whether what is being read ends before the next character, if there is one. -/
def endsBefore : Reading → Option Char → Bool
  | between, _ => true
  | word _, next => !next.any isWordChar
  | literal _ _, next => next.isNone
  | closing quote _, next => next != some quote

/-- What has been read is a word, or a literal as far as it goes. -/
def IsSound : Reading → Prop
  | between => True
  | word done => done ≠ [] ∧ ∀ c ∈ done, isWordChar c = true
  | literal quote done => isQuote quote = true ∧ ∃ content, done.reverse = quotedText quote false content
  | closing quote done => isQuote quote = true ∧ ∃ content, done.reverse = quotedText quote true content

end Piece.Reading

variable {r : Reading} {rest : List Char}

theorem cutFrom_of_ends (h : r.endsBefore rest.head? = true) :
    cutFrom r rest = r.finish ++ cutFrom .between rest := by
  cases rest with
  | nil => simp [cutFrom, Reading.finish]
  | cons c rest =>
    cases r with
    | between => rfl
    | word done =>
      have hc : isWordChar c = false := by simpa [Reading.endsBefore] using h
      simp [cutFrom, Reading.step, Reading.finish, hc]
    | literal quote done => cases h
    | closing quote done =>
      have hc : (c == quote) = false := by simpa [Reading.endsBefore] using h
      simp [cutFrom, Reading.step, Reading.finish, hc]

theorem cutFrom_quote (hr : r.isPlain = true) (hq : isQuote q = true) (rest : List Char) :
    cutFrom r (q :: rest) = r.finish ++ cutFrom (.literal q [q]) rest := by
  have hword : isWordChar q = false := by
    rw [Bool.eq_false_iff]
    intro hw
    rw [isQuote_of_isWordChar hw] at hq
    cases hq
  have hends : r.endsBefore (some q) = true := by
    cases r with
    | between => rfl
    | word done => simp [Reading.endsBefore, hword]
    | literal | closing => cases hr
  rw [cutFrom_of_ends hends, cutFrom, Reading.step, start, if_pos hq]
  rfl

theorem cutFrom_doubled (q : Char) (done content rest : List Char) :
    cutFrom (.literal q done) (doubled q content ++ rest) =
      cutFrom (.literal q ((doubled q content).reverse ++ done)) rest := by
  induction content generalizing done with
  | nil => rfl
  | cons c content ih =>
    rw [doubled_cons]
    by_cases hc : c = q
    · simp [hc, cutFrom, Reading.step, ih]
    · simp [hc, cutFrom, Reading.step, ih]

theorem cutFrom_unclosed (hr : r.isPlain = true) (hq : isQuote q = true) (content : List Char) :
    cutFrom r (quotedText q false content) = r.finish ++ [.literal (quotedText q false content)] := by
  rw [quotedText, cutFrom_quote hr hq, cutFrom_doubled]
  simp [cutFrom, Reading.finish]

theorem cutFrom_closed (hr : r.isPlain = true) (hq : isQuote q = true) (content : List Char)
    (hnext : rest.head? ≠ some q) : cutFrom r (quotedText q true content ++ rest) =
      r.finish ++ .literal (quotedText q true content) :: cutFrom .between rest := by
  rw [quotedText, List.cons_append, cutFrom_quote hr hq, List.append_assoc, cutFrom_doubled]
  have hclose : cutFrom (.literal q ((doubled q content).reverse ++ [q])) ([q] ++ rest) =
      cutFrom (.closing q (q :: ((doubled q content).reverse ++ [q]))) rest := by
    simp [cutFrom, Reading.step]
  have hends : Reading.endsBefore
      (.closing q (q :: ((doubled q content).reverse ++ [q]))) rest.head? = true := by
    simpa [Reading.endsBefore] using hnext
  rw [if_pos rfl, hclose, cutFrom_of_ends hends]
  simp [Reading.finish]

theorem cutFrom_word (done : List Char) {w : List Char} (hw : ∀ c ∈ w, isWordChar c = true)
    (rest : List Char) :
    cutFrom (.word done) (w ++ rest) = cutFrom (.word (w.reverse ++ done)) rest := by
  induction w generalizing done with
  | nil => rfl
  | cons c w ih =>
    obtain ⟨hc, hw⟩ := List.forall_mem_cons.mp hw
    rw [List.cons_append, cutFrom, Reading.step, if_pos hc, List.nil_append, ih _ hw]
    simp

/-- The pieces of a text are delimited. -/
theorem delimited_cutFrom (cs : List Char) (hr : r.IsSound) : Delimited IsCut (cutFrom r cs) := by
  induction cs generalizing r with
  | nil =>
    cases r with
    | between => exact .nil
    | word done =>
      obtain ⟨hne, hword⟩ := hr
      exact .plain ⟨by simpa using hne, by simpa using hword, rfl⟩ .nil
    | literal quote done =>
      obtain ⟨hq, content, hdone⟩ := hr
      rw [cutFrom, Reading.finish, hdone]
      exact .unclosed hq content
    | closing quote done =>
      obtain ⟨hq, content, hdone⟩ := hr
      rw [cutFrom, Reading.finish, hdone]
      exact .closed hq content (by simp [firstChar]) .nil
  | cons c cs ih =>
    have hstart : Delimited IsCut (cutFrom .between (c :: cs)) := by
      rw [cutFrom, Reading.step, start]
      split
      · next hq => exact ih ⟨hq, [], rfl⟩
      · next hq =>
        split
        · next hw => exact ih ⟨by simp, by simpa using hw⟩
        · next hw => exact .plain ⟨by simpa using hq, by simpa using hw⟩ (ih trivial)
    have hfirst : firstChar (cutFrom .between (c :: cs)) = some c := by
      rw [(hstart.mono fun _ _ => IsCut.quoteless).firstChar_eq, joined_cutFrom]
      rfl
    by_cases hends : r.endsBefore (some c) = true
    · rw [cutFrom_of_ends hends]
      cases r with
      | between => exact hstart
      | word done =>
        obtain ⟨hne, hword⟩ := hr
        refine .plain ⟨by simpa using hne, by simpa using hword, ?_⟩ hstart
        simpa [hfirst, Reading.endsBefore] using hends
      | literal quote done => cases hends
      | closing quote done =>
        obtain ⟨hq, content, hdone⟩ := hr
        rw [Reading.finish, hdone]
        refine .closed hq content ?_ hstart
        simpa [hfirst, Reading.endsBefore] using hends
    · -- the character belongs to what is being read
      cases r with
      | between => exact absurd rfl hends
      | word done =>
        have hc : isWordChar c = true := by simpa [Reading.endsBefore] using hends
        rw [cutFrom, Reading.step, if_pos hc]
        exact ih ⟨by simp, List.forall_mem_cons.mpr ⟨hc, hr.2⟩⟩
      | literal quote done =>
        obtain ⟨hq, content, hdone⟩ := hr
        rw [cutFrom, Reading.step]
        split
        · next hc =>
          refine ih ⟨hq, content, ?_⟩
          rw [List.reverse_cons, hdone, beq_iff_eq.mp hc]
          simp [quotedText]
        · next hc =>
          refine ih ⟨hq, content ++ [c], ?_⟩
          rw [List.reverse_cons, hdone]
          simp [quotedText, doubled_concat, hc]
      | closing quote done =>
        obtain ⟨hq, content, hdone⟩ := hr
        have hc : c = quote := by simpa [Reading.endsBefore] using hends
        rw [cutFrom, Reading.step, if_pos (by simpa using hc)]
        refine ih ⟨hq, content ++ [quote], ?_⟩
        rw [List.reverse_cons, hdone, hc]
        simp [quotedText, doubled_concat]

theorem delimited_cut (cs : List Char) : Delimited IsCut (cut cs) := delimited_cutFrom cs trivial

theorem delimited_quoteless (cs : List Char) : Delimited Quoteless (cut cs) :=
  (delimited_cut cs).mono fun _ _ => IsCut.quoteless

/-- Delimited pieces are those of their text. -/
theorem cut_joined (h : Delimited IsCut ps) : cut (joined ps) = ps := by
  induction h with
  | nil => rfl
  | @plain p ps hp h ih =>
    have hfirst := (h.mono fun _ _ => IsCut.quoteless).firstChar_eq
    cases p with
    | literal text => exact hp.elim
    | word w =>
      obtain ⟨hne, hword, hnext⟩ := hp
      obtain ⟨c, w, rfl⟩ := List.exists_cons_of_ne_nil hne
      obtain ⟨hc, hw⟩ := List.forall_mem_cons.mp hword
      have hends : Reading.endsBefore (.word (w.reverse ++ [c])) (joined ps).head? = true := by
        rw [← hfirst, Reading.endsBefore, hnext]
        rfl
      have hstart : cut (c :: (w ++ joined ps)) = cutFrom (.word [c]) (w ++ joined ps) := by
        rw [cut, cutFrom, Reading.step, start, if_neg (by simp [isQuote_of_isWordChar hc]), if_pos hc]
        rfl
      calc cut (joined (.word (c :: w) :: ps))
          = cutFrom (.word (w.reverse ++ [c])) (joined ps) := hstart.trans (cutFrom_word [c] hw _)
        _ = .word (c :: w) :: cut (joined ps) := by
            rw [cutFrom_of_ends hends, Reading.finish]
            simp [cut]
        _ = .word (c :: w) :: ps := by rw [ih]
    | sign c =>
      obtain ⟨hquote, hword⟩ := hp
      have hstart : cut (c :: joined ps) = .sign c :: cut (joined ps) := by
        rw [cut, cutFrom, Reading.step, start, if_neg (by simp [hquote]), if_neg (by simp [hword])]
        rfl
      exact hstart.trans (by rw [ih])
  | @closed q ps hq content hnext h ih =>
    rw [(h.mono fun _ _ => IsCut.quoteless).firstChar_eq] at hnext
    have hcut := cutFrom_closed (r := .between) rfl hq content hnext
    exact hcut.trans (by rw [← cut, ih]; rfl)
  | unclosed hq content =>
    have hcut := cutFrom_unclosed (r := .between) rfl hq content
    rw [joined, List.flatMap_singleton, text]
    exact hcut

/-- Text without quotes makes no literal, whatever follows it. -/
theorem cutFrom_quoteless {cs : List Char} (hcs : ∀ c ∈ cs, isQuote c = false)
    (hr : r.isPlain = true) : ∃ ps r', r'.isPlain = true ∧ (∀ p ∈ ps, p.isLiteral = false) ∧
      ∀ rest, cutFrom r (cs ++ rest) = ps ++ cutFrom r' rest := by
  induction cs generalizing r with
  | nil => exact ⟨[], r, hr, nofun, fun _ => rfl⟩
  | cons c cs ih =>
    obtain ⟨hc, hcs⟩ := List.forall_mem_cons.mp hcs
    have hstep : (r.step c).2.isPlain = true ∧ ∀ p ∈ (r.step c).1, p.isLiteral = false := by
      cases r with
      | between =>
        simp only [Reading.step, start, hc, Bool.false_eq_true, if_false]
        split <;> simp [Reading.isPlain, isLiteral]
      | word done =>
        simp only [Reading.step, start, hc, Bool.false_eq_true, if_false]
        split <;> simp [Reading.isPlain, isLiteral]
      | literal | closing => cases hr
    obtain ⟨ps, r', hr', hps, hcut⟩ := ih hcs hstep.1
    refine ⟨(r.step c).1 ++ ps, r', hr', List.forall_mem_append.mpr ⟨hstep.2, hps⟩, fun rest => ?_⟩
    rw [List.cons_append, cutFrom, hcut, List.append_assoc]

theorem refilled_plain (h : ∀ p ∈ ps, p.isLiteral = false) : List.Forall₂ Refilled ps ps :=
  List.forall₂_same.mpr fun p hp => .same (h p hp)

theorem refilled_finish (hr : r.isPlain = true) : List.Forall₂ Refilled r.finish r.finish := by
  cases r with
  | between => exact .nil
  | word done => exact .cons (.same rfl) .nil
  | literal | closing => cases hr

/-- Texts that differ in the contents of literals are cut into pieces that do. -/
theorem refilled_cutFrom (h : Delimited Quoteless ps) (hps : List.Forall₂ Refilled ps ps')
    (hr : r.isPlain = true) :
    List.Forall₂ Refilled (cutFrom r (joined ps)) (cutFrom r (joined ps')) := by
  induction h generalizing ps' r with
  | nil =>
    cases hps
    exact refilled_finish hr
  | plain hp h ih =>
    obtain ⟨p', ps₁, hpiece, hrest, rfl⟩ := List.forall₂_cons_left_iff.mp hps
    obtain rfl := refilled_of_not_literal hpiece hp.plain
    obtain ⟨out, r', hr', hout, hcut⟩ := cutFrom_quoteless hp.none hr
    rw [joined_cons, joined_cons, hcut, hcut]
    exact List.rel_append (refilled_plain hout) (ih hrest hr')
  | @closed q ps hq content hnext h ih =>
    obtain ⟨p', ps₁, hpiece, hrest, rfl⟩ := List.forall₂_cons_left_iff.mp hps
    obtain ⟨content', rfl⟩ := refilled_literal hpiece
    have hdelimited : Delimited Quoteless ps₁ :=
      h.refilled (fun _ _ _ _ hp => ⟨⟨hp.plain, hp.some, hp.none⟩, hp.plain⟩) hrest
    have hnext' : firstChar ps₁ ≠ some q := by rwa [firstChar_refilled hrest]
    rw [h.firstChar_eq] at hnext
    rw [hdelimited.firstChar_eq] at hnext'
    have hcut := cutFrom_closed hr hq content hnext
    have hcut' := cutFrom_closed hr hq content' hnext'
    rw [joined_cons, joined_cons, text, text, hcut, hcut']
    exact List.rel_append (refilled_finish hr)
      (.cons (.literal hq true content content') (ih hrest rfl))
  | unclosed hq content =>
    obtain ⟨p', ps₁, hpiece, hrest, rfl⟩ := List.forall₂_cons_left_iff.mp hps
    obtain ⟨content', rfl⟩ := refilled_literal hpiece
    cases hrest
    rw [joined, joined, List.flatMap_singleton, List.flatMap_singleton, text, text,
      cutFrom_unclosed hr hq, cutFrom_unclosed hr hq]
    exact List.rel_append (refilled_finish hr) (.cons (.literal hq false content content') .nil)

end LogQuery.Query
