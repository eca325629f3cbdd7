import Mathlib.Data.List.Induction
import Mathlib.Data.String.Basic
import LogQuery.Engine.Counts

/-!
# Counts add up

Counting texts file by file and merging the counts gives what counting them all
at once gives, in whatever order. A text has an entry when it occurs, with the
number of times it does.
-/

namespace LogQuery.Engine.Counts

/-- The counts of some texts, counted one after the other. -/
def ofKeys (keys : List String) : Counts := keys.foldl (fun c key => c.add key 1) empty

theorem ofKeys_concat (keys : List String) (key : String) :
    ofKeys (keys ++ [key]) = (ofKeys keys).add key 1 :=
  List.foldl_append

theorem insert_insert_self (key : String) (m n : Nat) (es : List (String × Nat)) :
    insert key n (insert key m es) = insert key (m + n) es := by
  induction es with
  | nil => simp [insert]
  | cons e es ih =>
    obtain ⟨k, l⟩ := e
    by_cases he : key = k
    · subst he
      simp [insert, Nat.add_assoc]
    · by_cases hl : key < k
      · simp [insert, he, hl]
      · simp [insert, he, hl, ih]

/-- A text that stands before another one is inserted without looking at it. -/
theorem insert_comm_of_lt {k₁ k₂ : String} (hlt : k₁ < k₂) (m n : Nat) (es : List (String × Nat)) :
    insert k₁ m (insert k₂ n es) = insert k₂ n (insert k₁ m es) := by
  have hne : k₁ ≠ k₂ := ne_of_lt hlt
  have hnot : ¬ k₂ < k₁ := lt_asymm hlt
  induction es with
  | nil => simp [insert, hne, hne.symm, hlt, hnot]
  | cons e es ih =>
    obtain ⟨k, l⟩ := e
    rcases lt_trichotomy k₁ k with h | rfl | h
    · rcases lt_trichotomy k₂ k with h' | rfl | h'
      · simp [insert, ne_of_lt h, ne_of_lt h', hne, hne.symm, h, h', hlt, hnot]
      · simp [insert, hne, hne.symm, hlt, hnot]
      · simp [insert, ne_of_lt h, ne_of_gt h', hne.symm, h, lt_asymm h', hnot]
    · simp [insert, hne.symm, hnot]
    · have h' := h.trans hlt
      simp [insert, ne_of_gt h, ne_of_gt h', lt_asymm h, lt_asymm h', ih]

theorem insert_comm (k₁ k₂ : String) (m n : Nat) (es : List (String × Nat)) :
    insert k₁ m (insert k₂ n es) = insert k₂ n (insert k₁ m es) := by
  rcases lt_trichotomy k₁ k₂ with h | rfl | h
  · exact insert_comm_of_lt h m n es
  · rw [insert_insert_self, insert_insert_self, Nat.add_comm]
  · exact (insert_comm_of_lt h n m es).symm

/-- Adding all of some entries. -/
def addAll (c : Counts) (es : List (String × Nat)) : Counts :=
  es.foldl (fun c e => c.add e.1 e.2) c

theorem add_right_comm (c : Counts) (k₁ k₂ : String) (m n : Nat) :
    (c.add k₁ m).add k₂ n = (c.add k₂ n).add k₁ m :=
  congrArg Counts.mk (insert_comm k₂ k₁ n m c.entries)

theorem addAll_add (c : Counts) (key : String) (n : Nat) (es : List (String × Nat)) :
    (c.add key n).addAll es = (c.addAll es).add key n := by
  induction es generalizing c with
  | nil => rfl
  | cons e es ih =>
    rw [addAll, List.foldl_cons, add_right_comm]
    exact ih (c.add e.1 e.2)

theorem addAll_insert (c : Counts) (key : String) (n : Nat) (es : List (String × Nat)) :
    c.addAll (insert key n es) = (c.addAll es).add key n := by
  induction es generalizing c with
  | nil => rfl
  | cons e es ih =>
    obtain ⟨k, m⟩ := e
    by_cases he : key = k
    · subst he
      have hadd : c.add key (m + n) = (c.add key m).add key n :=
        congrArg Counts.mk (insert_insert_self key m n c.entries).symm
      rw [insert, if_pos (by simp)]
      change (c.add key (m + n)).addAll es = _
      rw [hadd]
      exact addAll_add (c.add key m) key n es
    · by_cases hl : key < k
      · rw [insert, if_neg (by simpa using he), if_pos hl]
        exact addAll_add c key n ((k, m) :: es)
      · rw [insert, if_neg (by simpa using he), if_neg hl]
        exact ih (c.add k m)

theorem merge_add (a b : Counts) (key : String) (n : Nat) :
    a.merge (b.add key n) = (a.merge b).add key n :=
  addAll_insert a key n b.entries

/-- Merging in the counts of some texts is counting these as well. -/
theorem merge_ofKeys (c : Counts) (keys : List String) :
    c.merge (ofKeys keys) = keys.foldl (fun c key => c.add key 1) c := by
  induction keys using List.reverseRecOn with
  | nil => rfl
  | append_singleton keys key ih =>
    rw [ofKeys_concat, merge_add, ih, List.foldl_append]
    rfl

theorem foldl_merge_ofKeys (keyss : List (List String)) :
    (keyss.map ofKeys).foldl merge empty = ofKeys keyss.flatten := by
  rw [ofKeys]
  generalize empty = c
  induction keyss generalizing c with
  | nil => rfl
  | cons keys keyss ih =>
    rw [List.map_cons, List.foldl_cons, merge_ofKeys, List.flatten_cons, List.foldl_append]
    exact ih _

section Order

theorem addAll_append (c : Counts) (es more : List (String × Nat)) :
    c.addAll (es ++ more) = (c.addAll es).addAll more :=
  List.foldl_append

/-- The order in which entries are added makes no difference. -/
theorem addAll_perm {es more : List (String × Nat)} (h : es.Perm more) (c : Counts) :
    c.addAll es = c.addAll more :=
  h.foldl_eq' (fun x _ y _ d => add_right_comm d x.1 y.1 x.2 y.2) c

theorem ofKeys_eq_addAll (keys : List String) : ofKeys keys = empty.addAll (keys.map (·, 1)) := by
  rw [addAll, List.foldl_map]
  rfl

theorem ofKeys_perm {keys more : List String} (h : keys.Perm more) : ofKeys keys = ofKeys more := by
  rw [ofKeys_eq_addAll, ofKeys_eq_addAll]
  exact addAll_perm (h.map _) empty

/-- Counts are merged entry by entry. -/
theorem foldl_merge (c : Counts) (maps : List Counts) :
    maps.foldl merge c = c.addAll (maps.flatMap entries) := by
  induction maps generalizing c with
  | nil => rfl
  | cons d maps ih =>
    rw [List.foldl_cons, ih, List.flatMap_cons, addAll_append]
    rfl

end Order

section Entries

variable {es : List (String × Nat)} {c : Counts} {k : String} {n : Nat}

theorem mem_insert {key : String} {e : String × Nat} (h : e ∈ insert key n es) :
    (e.1 = key ∧ n ≤ e.2) ∨ e ∈ es := by
  induction es with
  | nil =>
    obtain rfl := List.mem_singleton.mp h
    exact .inl ⟨rfl, Nat.le_refl n⟩
  | cons d es ih =>
    simp only [insert, beq_iff_eq] at h
    split at h
    · next heq =>
      rcases List.mem_cons.mp h with rfl | h
      · exact .inl ⟨heq.symm, Nat.le_add_left n d.2⟩
      · exact .inr (List.mem_cons_of_mem _ h)
    · split at h
      · rcases List.mem_cons.mp h with rfl | h
        · exact .inl ⟨rfl, Nat.le_refl n⟩
        · exact .inr h
      · rcases List.mem_cons.mp h with rfl | h
        · exact .inr List.mem_cons_self
        · exact (ih h).imp_right (List.mem_cons_of_mem _)

theorem insert_ascending (h : es.Pairwise (·.1 < ·.1)) (key : String) (n : Nat) :
    (insert key n es).Pairwise (·.1 < ·.1) := by
  induction es with
  | nil => exact List.pairwise_singleton ..
  | cons d es ih =>
    obtain ⟨hd, htail⟩ := List.pairwise_cons.mp h
    simp only [insert, beq_iff_eq]
    split
    · exact List.pairwise_cons.mpr ⟨hd, htail⟩
    · next hne =>
      split
      · next hlt =>
        have hfirst : ∀ e ∈ d :: es, key < e.1 :=
          List.forall_mem_cons.mpr ⟨hlt, fun e he => hlt.trans (hd e he)⟩
        exact List.pairwise_cons.mpr ⟨hfirst, h⟩
      · next hnlt =>
        refine List.pairwise_cons.mpr ⟨fun e he => ?_, ih htail⟩
        rcases mem_insert he with ⟨hkey, -⟩ | he
        · exact hkey ▸ lt_of_le_of_ne (le_of_not_gt hnlt) (Ne.symm hne)
        · exact hd e he

theorem lookup_cons (l : String) (m : Nat) (es : List (String × Nat)) (k : String) :
    ((l, m) :: es).lookup k = if k = l then some m else es.lookup k := by
  rw [List.lookup_cons]
  cases h : k == l <;> simp_all

theorem lookup_eq_none (h : ∀ e ∈ es, k < e.1) : es.lookup k = none :=
  List.lookup_eq_none_iff.mpr fun e he => by simpa using (h e he).ne

/-- A text that is inserted occurs so many times more, and the others as before. -/
theorem lookup_insert (h : es.Pairwise (·.1 < ·.1)) (key : String) (n : Nat) (k : String) :
    (insert key n es).lookup k =
      if k = key then some ((es.lookup k).getD 0 + n) else es.lookup k := by
  induction es with
  | nil => simp [insert, lookup_cons]
  | cons d es ih =>
    obtain ⟨hd, htail⟩ := List.pairwise_cons.mp h
    obtain ⟨l, m⟩ := d
    simp only [insert, beq_iff_eq]
    split
    · next heq =>
      subst heq
      by_cases hk : k = key <;> simp [lookup_cons, hk]
    · next hne =>
      split
      · next hlt =>
        -- the text comes before all entries, so it has not occurred yet
        have hnone : es.lookup key = none := lookup_eq_none fun e he => hlt.trans (hd e he)
        by_cases hk : k = key
        · subst hk
          simp [lookup_cons, hne, hnone]
        · simp [lookup_cons, hk]
      · by_cases hk : k = l
        · subst hk
          simp [Ne.symm hne]
        · simp [lookup_cons, hk, ih htail]

theorem mem_iff_lookup (h : es.Pairwise (·.1 < ·.1)) : (k, n) ∈ es ↔ es.lookup k = some n := by
  induction es with
  | nil => simp
  | cons d es ih =>
    obtain ⟨hd, htail⟩ := List.pairwise_cons.mp h
    obtain ⟨l, m⟩ := d
    rw [List.mem_cons, lookup_cons, ih htail]
    by_cases hk : k = l
    · subst hk
      simp [lookup_eq_none hd, eq_comm]
    · simp [hk]

theorem total_cons (m : Nat) (ns : List Nat) : total (m :: ns) = m + total ns := rfl

theorem total_insert (key : String) (n : Nat) (es : List (String × Nat)) :
    total ((insert key n es).map Prod.snd) = total (es.map Prod.snd) + n := by
  induction es with
  | nil => exact Nat.add_comm n 0
  | cons d es ih =>
    simp only [insert, beq_iff_eq]
    split
    · simp only [List.map_cons, total_cons]
      omega
    · split
      · simp only [List.map_cons, total_cons]
        omega
      · simp only [List.map_cons, total_cons, ih]
        omega

/-- The texts ascend, and each of them occurs. -/
structure WellFormed (c : Counts) : Prop where
  ascending : c.entries.Pairwise (·.1 < ·.1)
  occurs : ∀ e ∈ c.entries, 0 < e.2

theorem WellFormed.add (h : c.WellFormed) (key : String) (hn : 0 < n) :
    (c.add key n).WellFormed where
  ascending := insert_ascending h.ascending key n
  occurs e he := by
    rcases mem_insert he with ⟨-, hle⟩ | he
    · exact Nat.lt_of_lt_of_le hn hle
    · exact h.occurs e he

theorem WellFormed.get_add (h : c.WellFormed) (key : String) (n : Nat) (k : String) :
    (c.add key n).get k = c.get k + if k = key then n else 0 := by
  rw [get, get, Counts.add, lookup_insert h.ascending]
  split <;> rfl

theorem WellFormed.keys (h : c.WellFormed) : c.keys.Pairwise (· < ·) :=
  List.pairwise_map.mpr h.ascending

/-- There is an entry for each text that occurs, and for no other. -/
theorem WellFormed.mem_entries (h : c.WellFormed) : (k, n) ∈ c.entries ↔ 0 < n ∧ n = c.get k := by
  rw [mem_iff_lookup h.ascending, get]
  constructor
  · intro hl
    exact ⟨h.occurs _ ((mem_iff_lookup h.ascending).mpr hl), by rw [hl]; rfl⟩
  · rintro ⟨hn, rfl⟩
    cases hl : c.entries.lookup k with
    | none => simp [hl] at hn
    | some m => rfl

theorem wellFormed_ofKeys (keys : List String) : (ofKeys keys).WellFormed := by
  induction keys using List.reverseRecOn with
  | nil => exact ⟨.nil, fun e he => absurd he List.not_mem_nil⟩
  | append_singleton keys key ih =>
    rw [ofKeys_concat]
    exact ih.add key Nat.one_pos

theorem get_ofKeys (keys : List String) (k : String) : (ofKeys keys).get k = keys.count k := by
  induction keys using List.reverseRecOn with
  | nil => rfl
  | append_singleton keys key ih =>
    rw [ofKeys_concat, (wellFormed_ofKeys keys).get_add, ih, List.count_append]
    by_cases hk : k = key
    · simp [hk]
    · simp [hk, Ne.symm hk]

/-- The texts of counts are those that have been counted. -/
theorem mem_keys_ofKeys {keys : List String} : k ∈ (ofKeys keys).keys ↔ k ∈ keys := by
  simp only [Counts.keys, List.mem_map, Prod.exists, exists_and_right, exists_eq_right,
    (wellFormed_ofKeys keys).mem_entries, get_ofKeys, exists_eq_right, List.count_pos_iff]

theorem total_ofKeys (keys : List String) :
    total ((ofKeys keys).entries.map Prod.snd) = keys.length := by
  induction keys using List.reverseRecOn with
  | nil => rfl
  | append_singleton keys key ih =>
    rw [ofKeys_concat, add, total_insert, ih, List.length_append, List.length_singleton]

end Entries

end LogQuery.Engine.Counts
