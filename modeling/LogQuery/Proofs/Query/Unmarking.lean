import LogQuery.Proofs.Query.Marks

/-!
# Undoing the markers of a query

Markers are undone by replacing their texts, one kind after the other, wherever they stand.
A replacement may meet a text that is no marker: the underscores of one marker, a word that
is the name of another kind, and the underscores of a second marker. Such a word is
`Misread`, and markers that are undone where nothing is misread give back the query. Where
something is misread, the marker before it is torn, and two underscores are left over that
no later replacement takes away.
-/

namespace LogQuery.Query

namespace Marker

/-- What stands between the underscores of a marker. -/
def name : Marker → List Char
  | dash => ['d', 'a', 's', 'h']
  | dot => ['d', 'o', 't']
  | star => ['s', 't', 'a', 'r']
  | date => ['d', 'a', 't', 'e']
  | all => ['a', 'l', 'l']

/-- The name of a marker with an underscore at most at either end. -/
def spellings (m : Marker) : List (List Char) :=
  [m.name, '_' :: m.name, m.name ++ ['_'], '_' :: (m.name ++ ['_'])]

theorem text_eq (m : Marker) : m.text = '_' :: '_' :: (m.name ++ ['_', '_']) := by
  cases m <;> rfl

theorem underscore_notMem_name (m : Marker) : '_' ∉ m.name := by
  cases m <;> decide

theorem exists_meaning_eq (m : Marker) : ∃ d rest, m.meaning = d :: rest ∧ d ≠ '_' := by
  cases m <;> exact ⟨_, _, rfl, by decide⟩

theorem not_underscore_head (m : Marker) (cs ds : List Char) : ¬ m.name ++ cs <+: '_' :: ds := by
  cases m <;> simp [name]

end Marker

section Replacing

variable {needle replacement cs ds : List Char} {c : Char}

theorem replaceAll_cons (h : ¬ needle <+: c :: cs) :
    replaceAll needle replacement (c :: cs) = c :: replaceAll needle replacement cs := by
  rw [replaceAll, replaceFrom, if_neg (by simpa using h)]
  rfl

theorem replaceFrom_append (cs ds : List Char) :
    replaceFrom needle replacement cs.length (cs ++ ds) = replaceAll needle replacement ds := by
  induction cs with
  | nil => rfl
  | cons c cs ih => simpa [replaceFrom] using ih

theorem replaceAll_needle (h : needle ≠ []) :
    replaceAll needle replacement (needle ++ cs) =
      replacement ++ replaceAll needle replacement cs := by
  obtain ⟨c, needle, rfl⟩ := List.exists_cons_of_ne_nil h
  rw [replaceAll, List.cons_append, replaceFrom, if_pos (by simp)]
  exact congrArg _ (replaceFrom_append needle cs)

/-- A text is passed over in which the needle begins nowhere. -/
theorem replaceAll_append (h : ∀ v, v <:+ ds → v ≠ [] → ¬ needle <+: v ++ cs) :
    replaceAll needle replacement (ds ++ cs) = ds ++ replaceAll needle replacement cs := by
  induction ds with
  | nil => rfl
  | cons d ds ih =>
    have hd : ¬ needle <+: d :: (ds ++ cs) := h (d :: ds) List.suffix_rfl (by simp)
    rw [List.cons_append, replaceAll_cons hd, ih fun v hv => h v (hv.trans (List.suffix_cons ..)),
      List.cons_append]

end Replacing

section Marks

variable {m k k' : Marker} {cs ds : List Char} {ts us : List Mark}

/-- A mark after the markers of one kind are undone. -/
def Mark.undo (m : Marker) : Mark → List Mark
  | plain c => [plain c]
  | marker k => if k = m then m.meaning.map plain else [marker k]

/-- Marks after the markers of one kind are undone. -/
def undone (m : Marker) (ts : List Mark) : List Mark := ts.flatMap (Mark.undo m)

@[simp] theorem undone_cons (t : Mark) : undone m (t :: ts) = t.undo m ++ undone m ts := rfl

@[simp] theorem undone_append (ts us : List Mark) :
    undone m (ts ++ us) = undone m ts ++ undone m us :=
  List.flatMap_append

@[simp] theorem undone_plain (cs : List Char) : undone m (cs.map .plain) = cs.map .plain := by
  induction cs with
  | nil => rfl
  | cons c cs ih => simp [Mark.undo, ih]

theorem undo_marker (h : k ≠ m) : (Mark.marker k).undo m = [.marker k] := if_neg h

theorem meant_undo (t : Mark) : meant (t.undo m) = t.meaning := by
  cases t with
  | plain c => rfl
  | marker k =>
    rw [Mark.undo]
    split
    · next h => rw [meant_plain, h, Mark.meaning]
    · simp [Mark.meaning]

@[simp] theorem meant_undone (ts : List Mark) : meant (undone m ts) = meant ts := by
  induction ts with
  | nil => rfl
  | cons t ts ih => simp [ih, meant_undo]

/-- No two underscores stand side by side in what the marks stand for. -/
def Apart (ts : List Mark) : Prop := ¬ ['_', '_'] <:+: meant ts

theorem Apart.mono (h : Apart ts) (hus : meant us <:+: meant ts) : Apart us := fun h' =>
  h (h'.trans hus)

theorem Apart.tail {t : Mark} (h : Apart (t :: ts)) : Apart ts :=
  h.mono (List.suffix_append ..).isInfix

theorem Apart.of_append (h : Apart (us ++ ts)) : Apart ts :=
  h.mono (by rw [meant_append]; exact (List.suffix_append ..).isInfix)

theorem Apart.underscores (h : Apart (.plain '_' :: .plain '_' :: ts)) : False :=
  h (List.prefix_append ['_', '_'] (meant ts)).isInfix

/-! ### One kind of markers -/

/-- A text goes on after a marker so that a marker of the kind `m` can be read that begins
with underscores of the former one. -/
def Spelled (m : Marker) (cs : List Char) : Prop :=
  m.name ++ ['_', '_'] <+: cs ∨ '_' :: (m.name ++ ['_', '_']) <+: cs

/-- The end of a text that a kind of markers can be read into goes beyond the marker `k`. -/
theorem prefix_cases (hk : k ≠ m) {v : List Char} (hv : v <:+ k.text) (hne : v ≠ [])
    (h : m.text <+: v ++ cs) :
    v = ['_', '_'] ∧ m.name ++ ['_', '_'] <+: cs ∨
      v = ['_'] ∧ '_' :: (m.name ++ ['_', '_']) <+: cs := by
  have hshort : ∀ v ∈ k.text.tails,
      v = [] ∨ v = ['_'] ∨ v = ['_', '_'] ∨ ¬ v <+: m.text ∧ ¬ m.text <+: v := by
    cases k <;> cases m <;> first | exact absurd rfl hk | decide
  obtain hv | rfl | rfl | ⟨hvm, hmv⟩ := hshort v ((List.mem_tails _ _).mpr hv)
  · exact absurd hv hne
  · rw [Marker.text_eq] at h
    exact .inr ⟨rfl, (List.cons_prefix_cons.mp h).2⟩
  · rw [Marker.text_eq] at h
    exact .inl ⟨rfl, (List.cons_prefix_cons.mp (List.cons_prefix_cons.mp h).2).2⟩
  · obtain h' | h' := List.prefix_or_prefix_of_prefix h (List.prefix_append v cs)
    · exact absurd h' hmv
    · exact absurd h' hvm

/-- A marker of another kind stays where nothing is misread after it. -/
theorem replaceAll_other (hk : k ≠ m) (h : ¬ Spelled m cs) :
    replaceAll m.text m.meaning (k.text ++ cs) = k.text ++ replaceAll m.text m.meaning cs := by
  refine replaceAll_append fun v hv hne hm => ?_
  obtain ⟨-, hm⟩ | ⟨-, hm⟩ := prefix_cases hk hv hne hm
  · exact h (.inl hm)
  · exact h (.inr hm)

/-- One mark is passed or undone. -/
theorem replaceAll_mark {t : Mark} (hplain : t = .plain '_' → ¬ '_' :: (m.name ++ ['_', '_']) <+: cs)
    (hmarker : ∀ k, t = .marker k → k ≠ m → ¬ Spelled m cs) :
    replaceAll m.text m.meaning (t.text ++ cs) =
      written (t.undo m) ++ replaceAll m.text m.meaning cs := by
  cases t with
  | plain c =>
    refine replaceAll_cons fun h => ?_
    rw [Marker.text_eq, List.cons_prefix_cons] at h
    exact hplain (congrArg Mark.plain h.1.symm) h.2
  | marker k =>
    rw [Mark.undo, Mark.text]
    split
    · next h =>
      subst h
      rw [written_plain]
      exact replaceAll_needle (by simp [Marker.text_eq])
    · next h =>
      rw [replaceAll_other h (hmarker k rfl h)]
      simp [Mark.text]

/-- After a plain underscore no marker goes on. -/
theorem not_spelled_underscore (h : Apart (.plain '_' :: ts))
    (hcs : ¬ '_' :: (m.name ++ ['_', '_']) <+: cs) :
    ¬ '_' :: (m.name ++ ['_', '_']) <+: written ts ++ cs := by
  intro hm
  cases ts with
  | nil => exact hcs hm
  | cons t ts =>
    cases t with
    | plain c =>
      obtain rfl : '_' = c := (List.cons_prefix_cons.mp hm).1
      exact h.underscores
    | marker k =>
      rw [written_cons, Mark.text, Marker.text_eq] at hm
      exact m.not_underscore_head _ _ (List.cons_prefix_cons.mp hm).2

/-- A marker of another kind is followed by what reads as one of the kind `m`. -/
def Clashes (m : Marker) (ts : List Mark) (cs : List Char) : Prop :=
  ∃ us k vs, ts = us ++ .marker k :: vs ∧ k ≠ m ∧ Spelled m (written vs ++ cs)

theorem not_clashes_cons {t : Mark} (h : ¬ Clashes m (t :: ts) cs) :
    (∀ k, t = .marker k → k ≠ m → ¬ Spelled m (written ts ++ cs)) ∧ ¬ Clashes m ts cs := by
  refine ⟨fun k ht hk hs => h ⟨[], k, ts, by rw [ht]; rfl, hk, hs⟩, ?_⟩
  rintro ⟨us, k, vs, rfl, hk, hs⟩
  exact h ⟨t :: us, k, vs, rfl, hk, hs⟩

/-- The markers of a kind are undone where they were set. -/
theorem replaceAll_written (h : Apart ts) (hcs : ¬ '_' :: (m.name ++ ['_', '_']) <+: cs)
    (hclash : ¬ Clashes m ts cs) :
    replaceAll m.text m.meaning (written ts ++ cs) =
      written (undone m ts) ++ replaceAll m.text m.meaning cs := by
  induction ts with
  | nil => rfl
  | cons t ts ih =>
    obtain ⟨hmarker, htail⟩ := not_clashes_cons hclash
    have hplain : t = .plain '_' → ¬ '_' :: (m.name ++ ['_', '_']) <+: written ts ++ cs := by
      rintro rfl
      exact not_spelled_underscore h hcs
    rw [written_cons, List.append_assoc, replaceAll_mark hplain hmarker, ih h.tail htail,
      undone_cons, written_append, List.append_assoc]

/-! ### Torn markers -/

/-- A text begins with a marker that has lost one of its last two underscores or both. -/
def Broken (cs : List Char) : Prop :=
  ∃ (k : Marker) (e : List Char) (d : Char) (ds : List Char),
    cs = '_' :: '_' :: (k.name ++ e) ++ d :: ds ∧ (e = [] ∨ e = ['_']) ∧ d ≠ '_'

/-- A text holds a marker that has lost one of its last two underscores or both, and before
it marks, which stand for a part of the given text. -/
def Torn (within cs : List Char) : Prop :=
  ∃ us ds, meant us <+: within ∧ Broken ds ∧ cs = written us ++ ds

theorem Torn.underscores (h : Torn ds cs) : ['_', '_'] <:+: cs := by
  obtain ⟨us, -, -, ⟨k, e, d, ds, rfl, -, -⟩, rfl⟩ := h
  exact ⟨written us, k.name ++ e ++ d :: ds, by simp⟩

theorem Broken.not_spelled (h : Broken cs) : ¬ '_' :: (m.name ++ ['_', '_']) <+: cs := by
  obtain ⟨k, e, d, ds, rfl, -, -⟩ := h
  intro hm
  exact m.not_underscore_head _ _ (List.cons_prefix_cons.mp hm).2

/-- No marker is read where one was torn. -/
theorem Broken.replaceAll (h : Broken cs) : Broken (replaceAll m.text m.meaning cs) := by
  obtain ⟨k, e, d, ds, rfl, he, hd⟩ := h
  have hshort : ∀ v ∈ ('_' :: '_' :: (k.name ++ e)).tails,
      v = [] ∨ ¬ m.text <+: v ∧ (v <+: m.text → v ++ ['_'] <+: m.text) := by
    obtain rfl | rfl := he <;> cases k <;> cases m <;> decide
  have hpass : ∀ v, v <:+ '_' :: '_' :: (k.name ++ e) → v ≠ [] → ¬ m.text <+: v ++ d :: ds := by
    intro v hv hne hm
    obtain hv | ⟨hmv, hnext⟩ := hshort v ((List.mem_tails _ _).mpr hv)
    · exact hne hv
    obtain h' | h' := List.prefix_or_prefix_of_prefix hm (List.prefix_append v (d :: ds))
    · exact hmv h'
    · -- a marker would go on with an underscore, but the text goes on with `d`
      have hunderscore := (List.prefix_append_right_inj v).mp ((hnext h').trans hm)
      exact hd (List.cons_prefix_cons.mp hunderscore).1.symm
  have hstop : ¬ m.text <+: d :: ds := by
    rw [Marker.text_eq, List.cons_prefix_cons]
    exact fun h => hd h.1.symm
  exact ⟨k, e, d, _, by rw [replaceAll_append hpass, replaceAll_cons hstop], he, hd⟩

/-- Reading a marker that begins with underscores of another one tears that one. -/
theorem broken_of_spelled (hk : k ≠ m) (h : Spelled m cs) :
    Broken (replaceAll m.text m.meaning (k.text ++ cs)) := by
  obtain ⟨d, rest, hmeaning, hd⟩ := m.exists_meaning_eq
  have hne : m.text ≠ [] := by simp [Marker.text_eq]
  -- the replacement happens after `e`; up to there the text is that of the marker `k`
  suffices htext : ∃ e ds, (e = [] ∨ e = ['_']) ∧
      k.text ++ cs = '_' :: '_' :: (k.name ++ e) ++ (m.text ++ ds) ∧
      ∀ v, v <:+ '_' :: '_' :: (k.name ++ e) → v ≠ [] → ¬ m.text <+: v ++ (m.text ++ ds) by
    obtain ⟨e, ds, he, htext, hpass⟩ := htext
    refine ⟨k, e, d, rest ++ Query.replaceAll m.text m.meaning ds, ?_, he, hd⟩
    rw [htext, replaceAll_append hpass, replaceAll_needle hne]
    nth_rewrite 1 [hmeaning]
    rfl
  have hlong : ∀ {w v : List Char}, v <:+ '_' :: '_' :: k.name → v ≠ [] →
      ¬ m.text <+: v ++ ('_' :: '_' :: w) := by
    intro w v hv hne hm
    have hsuffix : v ++ ['_', '_'] <:+ k.text := by
      obtain ⟨u, hu⟩ := hv
      exact ⟨u, by rw [← List.append_assoc, hu, Marker.text_eq]; rfl⟩
    have hm' : m.text <+: (v ++ ['_', '_']) ++ w := by simpa using hm
    obtain ⟨h, -⟩ | ⟨h, -⟩ := prefix_cases hk hsuffix (by simp) hm'
    · exact hne (List.append_left_eq_self.mp h)
    · simpa using congrArg List.length h
  obtain ⟨ds, rfl⟩ | ⟨ds, rfl⟩ := h
  · refine ⟨[], ds, .inl rfl, by simp [Marker.text_eq], fun v hv hne => ?_⟩
    rw [List.append_nil] at hv
    rw [Marker.text_eq, List.cons_append, List.cons_append, ← Marker.text_eq]
    exact hlong hv hne
  · refine ⟨['_'], ds, .inr rfl, by simp [Marker.text_eq], fun v hv hne hm => ?_⟩
    rw [← List.cons_append, ← List.cons_append] at hv
    obtain h | ⟨u, rfl, hu⟩ := List.suffix_concat_iff.mp hv
    · exact hne h
    by_cases hempty : u = []
    · subst hempty
      rw [Marker.text_eq] at hm
      exact m.not_underscore_head _ _ (List.cons_prefix_cons.mp (List.cons_prefix_cons.mp hm).2).2
    · refine hlong hu hempty (w := '_' :: (m.name ++ ['_', '_']) ++ ds) ?_
      rw [List.append_assoc] at hm
      nth_rewrite 2 [Marker.text_eq] at hm
      exact hm

/-- Where something is misread, a marker gets torn. -/
theorem torn_of_clashes (h : Apart ts) (hcs : ¬ '_' :: (m.name ++ ['_', '_']) <+: cs)
    (hclash : Clashes m ts cs) :
    Torn (meant ts) (replaceAll m.text m.meaning (written ts ++ cs)) := by
  induction ts with
  | nil =>
    obtain ⟨us, k, vs, heq, -⟩ := hclash
    simp at heq
  | cons t ts ih =>
    by_cases hhead : ∃ k, t = .marker k ∧ k ≠ m ∧ Spelled m (written ts ++ cs)
    · obtain ⟨k, rfl, hk, hs⟩ := hhead
      refine ⟨[], _, List.nil_prefix, broken_of_spelled hk hs, ?_⟩
      rw [written_cons, List.append_assoc, Mark.text, written_nil, List.nil_append]
    · have htail : Clashes m ts cs := by
        obtain ⟨us, k, vs, heq, hk, hs⟩ := hclash
        cases us with
        | nil =>
          obtain ⟨rfl, rfl⟩ := List.cons.inj heq
          exact absurd ⟨k, rfl, hk, hs⟩ hhead
        | cons u us => exact ⟨us, k, vs, (List.cons.inj heq).2, hk, hs⟩
      obtain ⟨us, ds, hus, hbroken, heq⟩ := ih h.tail htail
      have hplain : t = .plain '_' → ¬ '_' :: (m.name ++ ['_', '_']) <+: written ts ++ cs := by
        rintro rfl
        exact not_spelled_underscore h hcs
      refine ⟨t.undo m ++ us, ds, ?_, hbroken, ?_⟩
      · rw [meant_append, meant_undo, meant_cons]
        exact (List.prefix_append_right_inj _).mpr hus
      · rw [written_cons, List.append_assoc,
          replaceAll_mark hplain fun k ht hk hs => hhead ⟨k, ht, hk, hs⟩, heq, written_append,
          List.append_assoc]

/-- What is torn stays torn. -/
theorem Torn.replaceAll (hcs : ¬ ['_', '_'] <:+: cs) (h : Torn cs ds) :
    Torn cs (replaceAll m.text m.meaning ds) := by
  obtain ⟨us, ds, hus, hbroken, rfl⟩ := h
  have hapart : Apart us := fun h => hcs (h.trans hus.isInfix)
  by_cases hclash : Clashes m us ds
  · obtain ⟨vs, ds', hvs, hbroken', heq⟩ := torn_of_clashes hapart hbroken.not_spelled hclash
    exact ⟨vs, ds', hvs.trans hus, hbroken', heq⟩
  · rw [replaceAll_written hapart hbroken.not_spelled hclash]
    exact ⟨undone m us, _, by rwa [meant_undone], hbroken.replaceAll, rfl⟩

/-! ### Words that are misread -/

/-- A word that is the name of the kind `m`, up to an underscore at either end, stands
between markers of the kinds `k` and `k'`. -/
def Between (m k k' : Marker) (ts : List Mark) : Prop :=
  ∃ us, ∃ w ∈ m.spellings, ∃ vs, ts = us ++ .marker k :: (w.map .plain ++ .marker k' :: vs)

theorem cons_prefix_plain {c d : Char} :
    c :: cs <+: written (.plain d :: ts) ↔ c = d ∧ cs <+: written ts :=
  List.cons_prefix_cons

theorem cons_prefix_marker {c : Char} (h : c :: cs <+: written (.marker k :: ts)) :
    c = '_' ∧ ∃ ds, cs <+: '_' :: ds := by
  rw [written_cons, Mark.text, Marker.text_eq] at h
  obtain ⟨hc, hcs⟩ := List.cons_prefix_cons.mp h
  exact ⟨hc, _, hcs⟩

theorem exists_plain_append (hds : '_' ∉ ds) (h : ds ++ cs <+: written ts) :
    ∃ us, ts = ds.map .plain ++ us ∧ cs <+: written us := by
  induction ds generalizing ts with
  | nil => exact ⟨ts, rfl, h⟩
  | cons d ds ih =>
    obtain ⟨hd, hds⟩ := not_or.mp (List.mem_cons.not.mp hds)
    cases ts with
    | nil => simp at h
    | cons t ts =>
      cases t with
      | plain c =>
        obtain ⟨rfl, hrest⟩ := cons_prefix_plain.mp h
        obtain ⟨us, rfl, hus⟩ := ih hds hrest
        exact ⟨us, rfl, hus⟩
      | marker k => exact absurd (cons_prefix_marker h).1.symm hd

theorem exists_marker (h : Apart ts) (hts : ['_', '_'] <+: written ts) :
    ∃ k us, ts = .marker k :: us ∨ ts = .plain '_' :: .marker k :: us := by
  cases ts with
  | nil => simp at hts
  | cons t ts =>
    cases t with
    | marker k => exact ⟨k, ts, .inl rfl⟩
    | plain c =>
      obtain ⟨rfl, hrest⟩ := cons_prefix_plain.mp hts
      cases ts with
      | nil => simp at hrest
      | cons t ts =>
        cases t with
        | marker k => exact ⟨k, ts, .inr rfl⟩
        | plain c =>
          obtain ⟨rfl, -⟩ := cons_prefix_plain.mp hrest
          exact h.underscores.elim

/-- What reads as a marker after underscores is a word before a marker. -/
theorem spelled_iff (h : Apart ts) : Spelled m (written ts) ↔
    ∃ w ∈ m.spellings, ∃ k us, ts = w.map .plain ++ .marker k :: us := by
  constructor
  · rintro (hs | hs)
    · obtain ⟨us, rfl, hus⟩ := exists_plain_append m.underscore_notMem_name hs
      obtain ⟨k, us, rfl | rfl⟩ := exists_marker h.of_append hus
      · exact ⟨m.name, by simp [Marker.spellings], k, us, rfl⟩
      · exact ⟨m.name ++ ['_'], by simp [Marker.spellings], k, us, by simp⟩
    · cases ts with
      | nil => simp at hs
      | cons t ts =>
        cases t with
        | marker k =>
          obtain ⟨-, ds, hds⟩ := cons_prefix_marker hs
          exact absurd hds (m.not_underscore_head _ _)
        | plain c =>
          obtain ⟨rfl, hrest⟩ := cons_prefix_plain.mp hs
          obtain ⟨us, rfl, hus⟩ := exists_plain_append m.underscore_notMem_name hrest
          obtain ⟨k, us, rfl | rfl⟩ := exists_marker h.tail.of_append hus
          · exact ⟨'_' :: m.name, by simp [Marker.spellings], k, us, rfl⟩
          · exact ⟨'_' :: (m.name ++ ['_']), by simp [Marker.spellings], k, us, by simp⟩
  · rintro ⟨w, hw, k, us, rfl⟩
    rw [written_append, written_plain, written_cons, Mark.text, Marker.text_eq]
    simp only [Marker.spellings, List.mem_cons, List.not_mem_nil, or_false] at hw
    obtain rfl | rfl | rfl | rfl := hw
    · exact .inl ⟨k.name ++ ['_', '_'] ++ written us, by simp⟩
    · exact .inr ⟨k.name ++ ['_', '_'] ++ written us, by simp⟩
    · exact .inl ⟨'_' :: (k.name ++ ['_', '_'] ++ written us), by simp⟩
    · exact .inr ⟨'_' :: (k.name ++ ['_', '_'] ++ written us), by simp⟩

theorem clashes_iff (h : Apart ts) : Clashes m ts [] ↔ ∃ k k', k ≠ m ∧ Between m k k' ts := by
  constructor
  · rintro ⟨us, k, vs, rfl, hk, hs⟩
    rw [List.append_nil, spelled_iff h.of_append.tail] at hs
    obtain ⟨w, hw, k', vs, rfl⟩ := hs
    exact ⟨k, k', hk, us, w, hw, vs, rfl⟩
  · rintro ⟨k, k', hk, us, w, hw, vs, rfl⟩
    refine ⟨us, k, w.map .plain ++ .marker k' :: vs, rfl, hk, ?_⟩
    rw [List.append_nil, spelled_iff h.of_append.tail]
    exact ⟨w, hw, k', vs, rfl⟩

/-! ### All kinds of markers -/

/-- A word reads as a marker of a kind `m`: the marker before it is undone after the kind `m`,
and the one after it is not undone before. The kinds are undone in the order of the list. -/
def Misread (ms : List Marker) (ts : List Mark) : Prop :=
  ∃ m k k', [m, k].Sublist ms ∧ (k' = m ∨ [m, k'].Sublist ms) ∧ Between m k k' ts

/-- Marks that are left when a kind of markers is undone were there before. -/
theorem exists_of_undone_eq (hk : k ≠ m) (h : undone m ts = us ++ .marker k :: vs) :
    ∃ us' vs', ts = us' ++ .marker k :: vs' ∧ undone m vs' = vs := by
  induction ts generalizing us with
  | nil => simp [undone] at h
  | cons t ts ih =>
    rw [undone_cons] at h
    by_cases ht : t = .marker k
    · subst ht
      rw [Mark.undo, if_neg hk, List.singleton_append] at h
      cases us with
      | nil => exact ⟨[], ts, rfl, (List.cons.inj h).2⟩
      | cons u us =>
        obtain ⟨us', vs', rfl, hvs⟩ := ih (List.cons.inj h).2
        exact ⟨.marker k :: us', vs', rfl, hvs⟩
    · have hnone : .marker k ∉ t.undo m := by
        cases t with
        | plain c => simp [Mark.undo]
        | marker k' =>
          rw [Mark.undo]
          split
          · simp
          · simpa [eq_comm] using ht
      obtain ⟨w, -, hrest⟩ | ⟨w, hw, hrest⟩ := List.append_eq_append_iff.mp h
      · obtain ⟨us', vs', rfl, hvs⟩ := ih hrest
        exact ⟨t :: us', vs', rfl, hvs⟩
      cases w with
      | nil =>
        obtain ⟨us', vs', rfl, hvs⟩ := ih (show undone m ts = [] ++ _ from hrest.symm)
        exact ⟨t :: us', vs', rfl, hvs⟩
      | cons u w =>
        rw [List.cons_append] at hrest
        rw [hw, ← (List.cons.inj hrest).1] at hnone
        simp at hnone

/-- A mark comes first when a kind is undone, and no marker of the kind begins with it. -/
theorem undone_eq_cons {u : Mark} (hu : ∀ c, m.meaning.head? = some c → u ≠ .plain c)
    (h : undone m ts = u :: us) : ∃ us', ts = u :: us' ∧ undone m us' = us := by
  cases ts with
  | nil => simp [undone] at h
  | cons t ts =>
    rw [undone_cons] at h
    cases t with
    | plain c =>
      obtain ⟨rfl, hrest⟩ := List.cons.inj h
      exact ⟨ts, rfl, hrest⟩
    | marker k =>
      by_cases hk : k = m
      · obtain ⟨d, rest, hmeaning, -⟩ := m.exists_meaning_eq
        rw [Mark.undo, if_pos hk, hmeaning] at h
        exact absurd (List.cons.inj h).1.symm (hu d (by rw [hmeaning]; rfl))
      · rw [undo_marker hk] at h
        obtain ⟨rfl, hrest⟩ := List.cons.inj h
        exact ⟨ts, rfl, hrest⟩

/-- A word that no marker of a kind begins to stand for was there before it is undone. -/
theorem exists_of_undone_plain (hds : ∀ c, m.meaning.head? = some c → c ∉ ds)
    (h : undone m ts = ds.map .plain ++ .marker k :: us) :
    ∃ us', ts = ds.map .plain ++ .marker k :: us' := by
  induction ds generalizing ts with
  | nil =>
    obtain ⟨us', rfl, -⟩ := undone_eq_cons (by simp) h
    exact ⟨us', rfl⟩
  | cons d ds ih =>
    have hd : ∀ c, m.meaning.head? = some c → Mark.plain d ≠ .plain c := by
      rintro c hc ⟨rfl⟩
      exact hds d hc List.mem_cons_self
    obtain ⟨ts, rfl, hrest⟩ := undone_eq_cons hd h
    obtain ⟨us', rfl⟩ := ih (fun c hc hmem => hds c hc (List.mem_cons_of_mem _ hmem)) hrest
    exact ⟨us', rfl⟩

theorem between_undone_iff (hk : k ≠ m) (hk' : k' ≠ m) {n : Marker}
    (hn : ∀ w ∈ n.spellings, ∀ c, m.meaning.head? = some c → c ∉ w) :
    Between n k k' (undone m ts) ↔ Between n k k' ts := by
  constructor
  · rintro ⟨us, w, hw, vs, h⟩
    obtain ⟨us, ts, rfl, hrest⟩ := exists_of_undone_eq hk h
    obtain ⟨vs, rfl⟩ := exists_of_undone_plain (hn w hw) hrest
    exact ⟨us, w, hw, vs, rfl⟩
  · rintro ⟨us, w, hw, vs, rfl⟩
    exact ⟨undone m us, w, hw, undone m vs, by simp [undo_marker hk, undo_marker hk']⟩

/-- What a marker stands for does not begin with a character of the name of a later kind. -/
theorem notMem_spelling (h : [m, k].Sublist Marker.order) :
    ∀ w ∈ k.spellings, ∀ c, m.meaning.head? = some c → c ∉ w := by
  suffices h : ∀ w ∈ k.spellings, ∀ c ∈ m.meaning.head?, c ∉ w from h
  cases m <;> cases k <;> first | exact absurd h (by decide) | simp [Marker.spellings, Marker.name, Marker.meaning]

/-- The kinds that are left to be undone. -/
def unmarkFrom (ms : List Marker) (cs : List Char) : List Char :=
  ms.foldl (fun cs m => replaceAll m.text m.meaning cs) cs

theorem Torn.unmarkFrom (hcs : ¬ ['_', '_'] <:+: cs) (ms : List Marker) (h : Torn cs ds) :
    Torn cs (unmarkFrom ms ds) := by
  induction ms generalizing ds with
  | nil => exact h
  | cons m ms ih => exact ih (h.replaceAll hcs)

theorem written_eq_meant (h : ∀ k, .marker k ∉ ts) : written ts = meant ts := by
  refine List.flatMap_congr fun t ht => ?_
  cases t with
  | plain c => rfl
  | marker k => exact absurd ht (h k)

theorem marker_mem_of_undone (h : .marker k ∈ undone m ts) : .marker k ∈ ts ∧ k ≠ m := by
  obtain ⟨t, ht, hk⟩ := List.mem_flatMap.mp h
  cases t with
  | plain c => simp [Mark.undo] at hk
  | marker k' =>
    rw [Mark.undo] at hk
    split at hk
    · simp at hk
    · next hne =>
      obtain rfl : k = k' := by simpa using hk
      exact ⟨ht, hne⟩

theorem pair_sublist_cons {n : Marker} {ms : List Marker} :
    [n, k].Sublist (m :: ms) ↔ [n, k].Sublist ms ∨ n = m ∧ k ∈ ms := by
  rw [List.cons_sublist_cons', List.singleton_sublist]

theorem Between.mem {n : Marker} (h : Between n k k' ts) : .marker k ∈ ts ∧ .marker k' ∈ ts := by
  obtain ⟨us, w, -, vs, rfl⟩ := h
  simp

/-- Where the first kind is not misread, the later kinds are misread as they were before. -/
theorem misread_undone_iff {ms : List Marker} (hms : m :: ms <:+ Marker.order) (h : Apart ts)
    (hclash : ¬ Clashes m ts []) : Misread (m :: ms) ts ↔ Misread ms (undone m ts) := by
  have hm : m ∉ ms := (List.nodup_cons.mp (hms.sublist.nodup (by decide))).1
  have hpair : ∀ {n k : Marker}, [n, k].Sublist ms → n ≠ m ∧ k ≠ m := fun hnk =>
    ⟨fun he => hm (he ▸ hnk.subset (by simp)), fun he => hm (he ▸ hnk.subset (by simp))⟩
  have hbetween : ∀ {n k k' : Marker}, [n, k].Sublist ms → (k' = n ∨ [n, k'].Sublist ms) →
      (Between n k k' (undone m ts) ↔ Between n k k' ts) := by
    intro n k k' hk hk'
    have hne : k' ≠ m := hk'.elim (fun he => he ▸ (hpair hk).1) fun hk' => (hpair hk').2
    refine between_undone_iff (hpair hk).2 hne (notMem_spelling ?_)
    exact (pair_sublist_cons.mpr (.inr ⟨rfl, hk.subset (by simp)⟩)).trans hms.sublist
  constructor
  · rintro ⟨n, k, k', hk, hk', hb⟩
    obtain hk | ⟨rfl, hkms⟩ := pair_sublist_cons.mp hk
    · have hk' : k' = n ∨ [n, k'].Sublist ms := hk'.imp_right fun hk' =>
        (pair_sublist_cons.mp hk').resolve_right fun he => (hpair hk).1 he.1
      exact ⟨n, k, k', hk, hk', (hbetween hk hk').mpr hb⟩
    · have hne : k ≠ n := fun he => hm (he ▸ hkms)
      exact absurd ((clashes_iff h).mpr ⟨k, k', hne, hb⟩) hclash
  · rintro ⟨n, k, k', hk, hk', hb⟩
    refine ⟨n, k, k', pair_sublist_cons.mpr (.inl hk), ?_, (hbetween hk hk').mp hb⟩
    exact hk'.imp_right fun hk' => pair_sublist_cons.mpr (.inl hk')

/-- Undoing kind by kind what is left to be undone gives what the marks stand for, or leaves
a torn marker: the latter where something is misread. -/
theorem unmarkFrom_written (ms : List Marker) (hms : ms <:+ Marker.order)
    (hmarkers : ∀ k, .marker k ∈ ts → k ∈ ms) (h : Apart ts) :
    (Misread ms ts → Torn (meant ts) (unmarkFrom ms (written ts))) ∧
      (¬ Misread ms ts → unmarkFrom ms (written ts) = meant ts) := by
  induction ms generalizing ts with
  | nil =>
    refine ⟨fun ⟨_, _, _, hk, _⟩ => absurd hk (by simp), fun _ => ?_⟩
    exact written_eq_meant fun k hk => by simpa using hmarkers k hk
  | cons m ms ih =>
    have hnil : ¬ '_' :: (m.name ++ ['_', '_']) <+: [] := by simp
    by_cases hclash : Clashes m ts []
    · obtain ⟨k, k', hk, hb⟩ := (clashes_iff h).mp hclash
      have hlater : ∀ n, .marker n ∈ ts → n = m ∨ [m, n].Sublist (m :: ms) := fun n hn =>
        (List.mem_cons.mp (hmarkers n hn)).imp_right fun hn => pair_sublist_cons.mpr (.inr ⟨rfl, hn⟩)
      have hmisread : Misread (m :: ms) ts :=
        ⟨m, k, k', (hlater k hb.mem.1).resolve_left hk, hlater k' hb.mem.2, hb⟩
      have htorn := torn_of_clashes h hnil hclash
      rw [List.append_nil] at htorn
      exact ⟨fun _ => htorn.unmarkFrom h ms, fun hn => absurd hmisread hn⟩
    · have hstep := replaceAll_written h hnil hclash
      rw [List.append_nil, show replaceAll m.text m.meaning [] = [] from rfl, List.append_nil] at hstep
      have hleft : ∀ k, .marker k ∈ undone m ts → k ∈ ms := fun k hk =>
        (List.mem_cons.mp (hmarkers k (marker_mem_of_undone hk).1)).resolve_left
          (marker_mem_of_undone hk).2
      have hapart : Apart (undone m ts) := by rwa [Apart, meant_undone]
      have hrest := ih ((List.suffix_cons m ms).trans hms) hleft hapart
      rwa [meant_undone, ← misread_undone_iff hms h hclash, ← hstep] at hrest

end Marks

/-! ## Queries -/

variable {s : List Char}

theorem underscore_of_toLower {c : Char} (h : c.toLower = '_') : c = '_' := by
  by_cases hc : c.isUpper
  · have hlower : c.toLower.isLower := by simp [Char.isAlpha, hc]
    rw [h] at hlower
    exact absurd hlower (by decide)
  · rwa [Char.toLower_eq_of_not_isUpper hc] at h

theorem underscores_of_lowerAscii (h : ['_', '_'] <:+: lowerAscii s) : ['_', '_'] <:+: s := by
  obtain ⟨cs, hcs, hmap⟩ := List.infix_map_iff.mp h
  obtain ⟨a, as, rfl, ha, hmap⟩ := List.map_eq_cons_iff.mp hmap.symm
  obtain ⟨b, bs, rfl, hb, hmap⟩ := List.map_eq_cons_iff.mp hmap
  rwa [underscore_of_toLower ha, underscore_of_toLower hb, List.map_eq_nil_iff.mp hmap] at hcs

theorem apart_marksOf (h : ¬ ['_', '_'] <:+: s) : Apart (marksOf s) := by
  intro hm
  refine h (underscores_of_lowerAscii ?_)
  rw [← lowerAscii_meant_marksOf]
  exact hm.map Char.toLower

/-- Undoing the markers of a query without two underscores side by side gives the query back
exactly if no word is misread, and then piece by piece and but for the case of words `date`. -/
theorem unmark_markChars (h : ¬ ['_', '_'] <:+: s) :
    (lowerAscii (unmark (markChars s)) = lowerAscii s ↔ ¬ Misread Marker.order (marksOf s)) ∧
    (¬ Misread Marker.order (marksOf s) → ∃ ps, unmark (markChars s) = Piece.joined ps ∧
      List.Forall₂ SameButDate (Piece.cut s) ps) := by
  obtain ⟨htorn, hmeant⟩ := unmarkFrom_written Marker.order List.suffix_rfl
    (fun k _ => by cases k <;> decide) (apart_marksOf h)
  rw [written_marksOf] at htorn hmeant
  change _ → Torn _ (unmark (markChars s)) at htorn
  change _ → unmark (markChars s) = _ at hmeant
  refine ⟨⟨fun he hmisread => ?_, fun hn => ?_⟩, fun hn => ?_⟩
  · refine h (underscores_of_lowerAscii ?_)
    rw [← he]
    exact (htorn hmisread).underscores.map Char.toLower
  · rw [hmeant hn, lowerAscii_meant_marksOf]
  · rw [hmeant hn]
    exact meant_marksOf s

/-- A segment `dash` is not misread where no marker follows it. -/
def dashColumn : List Char :=
  "SELECT line.*.Id, line.dash FROM my-app, * WHERE DATE > '2020-01-01'".toList

theorem dashColumn_unmarked : ¬ ['_', '_'] <:+: dashColumn ∧
    ¬ Misread Marker.order (marksOf dashColumn) ∧ ∃ ps, unmark (markChars dashColumn) =
      Piece.joined ps ∧ List.Forall₂ SameButDate (Piece.cut dashColumn) ps := by
  have happart : ¬ ['_', '_'] <:+: dashColumn := by decide +kernel
  obtain ⟨hiff, hpieces⟩ := unmark_markChars happart
  have hread : ¬ Misread Marker.order (marksOf dashColumn) := hiff.mp (by decide +kernel)
  exact ⟨happart, hread, hpieces hread⟩

/-- A segment `dash` between two dots is lost: the dots are undone too late. -/
theorem dash_between_dots : ¬ ['_', '_'] <:+: "line.dash.x".toList ∧
    unmark (markChars "line.dash.x".toList) = "line__dot-dot__x".toList ∧
    lowerAscii (unmark (markChars "line.dash.x".toList)) ≠ lowerAscii "line.dash.x".toList := by
  decide +kernel

end LogQuery.Query
