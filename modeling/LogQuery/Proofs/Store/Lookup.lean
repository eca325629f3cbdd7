import LogQuery.Proofs.Compile.Meaning
import LogQuery.Store.FileSystem

/-!
# Looking up what a directory holds

In a tree that a file system can hold, each name of a directory stands for one entry,
and the path of the directory with the name behind it leads to that entry. Such paths
have one component more than that of the directory.
-/

namespace LogQuery

open LogQuery.Compile

namespace Store

/-! ## Names and trees -/

/-- What an entry of a directory may be called. -/
structure IsFileName (name : String) : Prop where
  no_slash : '/' ∉ name.toList
  no_zero : '\x00' ∉ name.toList
  not_idle : FilePath.isIdle name = false
  not_up : name ≠ ".."
  short : name.utf8ByteSize ≤ Node.maxNameLength

/-- A tree as a file system holds it: a directory has no name twice. -/
inductive Node.IsTree : Node → Prop
  | file (content : Content) : IsTree (.file content)
  | directory {es : List (String × Node)} (distinct : (es.map Prod.fst).Nodup)
      (names : ∀ e ∈ es, IsFileName e.1) (below : ∀ e ∈ es, e.2.IsTree) : IsTree (.directory es)

instance (name : String) : Decidable (IsFileName name) :=
  decidable_of_iff ('/' ∉ name.toList ∧ '\x00' ∉ name.toList ∧ FilePath.isIdle name = false ∧
      name ≠ ".." ∧ name.utf8ByteSize ≤ Node.maxNameLength)
    ⟨fun ⟨hs, hz, hi, hu, hl⟩ => ⟨hs, hz, hi, hu, hl⟩,
      fun h => ⟨h.no_slash, h.no_zero, h.not_idle, h.not_up, h.short⟩⟩

theorem Node.isTree_directory {es : List (String × Node)} : (Node.directory es).IsTree ↔
    (es.map Prod.fst).Nodup ∧ (∀ e ∈ es, IsFileName e.1) ∧ ∀ e ∈ es, e.2.IsTree := by
  constructor
  · rintro ⟨⟩
    exact ⟨‹_›, ‹_›, ‹_›⟩
  · rintro ⟨distinct, names, below⟩
    exact .directory distinct names below

mutual

def Node.decideIsTree : (n : Node) → Decidable n.IsTree
  | .file content => .isTrue (.file content)
  | .directory es =>
    have := Node.decideBelow es
    decidable_of_iff _ Node.isTree_directory.symm

def Node.decideBelow : (es : List (String × Node)) → Decidable (∀ e ∈ es, e.2.IsTree)
  | [] => .isTrue (by simp)
  | (name, n) :: es =>
    have := Node.decideIsTree n
    have := Node.decideBelow es
    decidable_of_iff (n.IsTree ∧ ∀ e ∈ es, e.2.IsTree) (by rw [List.forall_mem_cons])

end

instance (n : Node) : Decidable n.IsTree := n.decideIsTree

/-- What a directory holds under a name. -/
def FileSystem.Holds (fs : FileSystem) (p : FilePath) (name : String) (n : Node) : Prop :=
  ∃ es, fs.node p = .ok (.directory es) ∧ (name, n) ∈ es

/-! ## Paths of entries -/

namespace FilePath

variable {p : FilePath} {name : String}

theorem isAbsolute_eq_false (h : IsFileName name) : isAbsolute ⟨name⟩ = false := by
  refine beq_eq_false_iff_ne.mpr fun hslash => h.no_slash ?_
  exact List.mem_of_mem_head? (Option.mem_def.mpr hslash)

theorem parts_fileName (h : IsFileName name) : parts ⟨name⟩ = [name] := by
  rw [parts, Text.splitOn_eq_singleton h.no_slash]
  simp

/-- A path below another one is the other, a slash and the name; a slash at the end of the
other is the one. -/
theorem join_text (hp : p.text ≠ "") (h : isAbsolute ⟨name⟩ = false) :
    ∃ stem, (p.join name).text.toList = stem ++ '/' :: name.toList ∧
      (p.text.toList = stem ∨ p.text.toList = stem ++ ['/']) := by
  have hempty : p.text.isEmpty = false := by simpa using hp
  unfold join
  rw [h, hempty]
  simp only [Bool.false_eq_true, if_false, Bool.false_or, beq_iff_eq]
  split
  · next hlast =>
    obtain ⟨stem, hstem⟩ := List.getLast?_eq_some_iff.mp hlast
    exact ⟨stem, by simp [hstem], .inr hstem⟩
  · exact ⟨p.text.toList, by simp, .inl rfl⟩

theorem join_text_ne (hp : p.text ≠ "") (h : isAbsolute ⟨name⟩ = false) :
    (p.join name).text ≠ "" := by
  obtain ⟨stem, hjoin, -⟩ := join_text hp h
  intro he
  rw [he] at hjoin
  simp at hjoin

theorem no_zero_join (hp : p.text ≠ "") (h : IsFileName name) (hzero : '\x00' ∉ p.text.toList) :
    '\x00' ∉ (p.join name).text.toList := by
  obtain ⟨stem, hjoin, hstem⟩ := join_text hp (isAbsolute_eq_false h)
  have hno := h.no_zero
  have hstem : '\x00' ∉ stem := by
    rcases hstem with hs | hs <;> rw [hs] at hzero
    · exact hzero
    · exact fun hm => hzero (List.mem_append_left _ hm)
  simp [hjoin, hstem, hno]

theorem isAbsolute_join (hp : p.text ≠ "") (h : isAbsolute ⟨name⟩ = false) :
    (p.join name).isAbsolute = p.isAbsolute := by
  obtain ⟨stem, hjoin, hstem⟩ := join_text hp h
  have hne : p.text.toList ≠ [] := by simpa using hp
  unfold isAbsolute
  rw [hjoin]
  rcases hstem with hs | hs
  · rw [hs] at hne ⊢
    rw [List.head?_append_of_ne_nil _ hne]
  · rw [hs]
    cases stem <;> rfl

/-- The parts of a path below another one. Those of the other may end in an empty one. -/
theorem parts_join (hp : p.text ≠ "") (h : isAbsolute ⟨name⟩ = false) :
    ∃ ps, ps ≠ [] ∧ (p.join name).parts = ps ++ parts ⟨name⟩ ∧
      (p.parts = ps ∨ p.parts = ps ++ [""]) := by
  obtain ⟨stem, hjoin, hstem⟩ := join_text hp h
  refine ⟨(Text.splitOn '/' stem).map String.ofList, by simp [Text.splitOn_ne_nil], ?_, ?_⟩
  · unfold parts
    rw [hjoin, Text.splitOn_append_sep, List.map_append]
  · unfold parts
    rcases hstem with hs | hs
    · exact .inl (by rw [hs])
    · exact .inr (by rw [hs, Text.splitOn_append_sep]; simp [Text.splitOn])

theorem isIdle_empty : isIdle "" = true := rfl

theorem components_join (hp : p.text ≠ "") (h : IsFileName name) :
    (p.join name).components = p.components ++ [name] := by
  obtain ⟨ps, hne, hjoin, hparts⟩ := parts_join hp (isAbsolute_eq_false h)
  obtain ⟨first, rest, rfl⟩ := List.exists_cons_of_ne_nil hne
  unfold components
  rw [hjoin, parts_fileName h]
  have hname := h.not_idle
  rcases hparts with hs | hs <;> rw [hs] <;> simp [List.filter_append, hname, isIdle_empty]

theorem same_refl (p : FilePath) : p.same p = true := by simp [same]

end FilePath

/-! ## Going to an entry -/

namespace Node

variable {above above' : List Node} {n n' : Node} {es : List (String × Node)} {name : String}

theorem walk_cons (above : List Node) (n : Node) (part : String) (parts : List String) :
    walk above n (part :: parts) = walk above n [part] >>= fun r => walk r.1 r.2 parts := by
  cases n with
  | file content => rfl
  | directory es =>
    -- The equations of `walk` tell apart whether there is a directory to go back to.
    cases above <;>
    · simp only [walk]
      repeat' split
      all_goals rfl

theorem walk_append (above : List Node) (n : Node) (xs ys : List String) :
    walk above n (xs ++ ys) = walk above n xs >>= fun r => walk r.1 r.2 ys := by
  induction xs generalizing above n with
  | nil => simp [walk, bind, Except.bind]
  | cons x xs ih =>
    rw [List.cons_append, walk_cons, walk_cons above n x xs, bind_assoc]
    exact bind_congr fun r => ih r.1 r.2

/-- A slash at the end of a path leads nowhere else. -/
theorem walk_concat_idle {parts : List String}
    (h : walk above n (parts ++ [""]) = .ok (above', .directory es)) :
    walk above n parts = .ok (above', .directory es) := by
  rw [walk_append] at h
  obtain ⟨⟨above₁, n₁⟩, hw, h⟩ := bind_eq_ok.mp h
  cases n₁ with
  | file content => cases h -- no slash may follow a file
  | directory es₁ => exact hw.trans h

theorem lookup_of_mem (h : (es.map Prod.fst).Nodup) (hmem : (name, n) ∈ es) :
    es.lookup name = some n := by
  induction es with
  | nil => cases hmem
  | cons e es ih =>
    obtain ⟨hnot, hnodup⟩ := List.nodup_cons.mp h
    rw [List.lookup_cons]
    rcases List.mem_cons.mp hmem with rfl | hrest
    · simp
    · have hne : (name == e.1) = false :=
        beq_eq_false_iff_ne.mpr fun he => hnot (he ▸ List.mem_map_of_mem hrest)
      rw [hne]
      exact ih hnodup hrest

theorem mem_of_lookup (h : es.lookup name = some n) : (name, n) ∈ es := by
  obtain ⟨front, back, rfl, -⟩ := List.lookup_eq_some_iff.mp h
  exact List.mem_append_right _ List.mem_cons_self

theorem walk_entry (h : (directory es).IsTree) (hmem : (name, n) ∈ es) :
    walk above (directory es) [name] = .ok (directory es :: above, n) := by
  cases h with
  | directory distinct names below =>
    have hname := names _ hmem
    cases above <;>
      rw [walk, if_neg (by simp [hname.not_idle]), if_neg (by simp [hname.not_up]),
        if_neg (Nat.not_lt.mpr hname.short), lookup_of_mem distinct hmem] <;>
      rfl

/-- All directories on the way of a walk through a tree are trees. -/
theorem isTree_walk {parts : List String} (hn : n.IsTree) (ha : ∀ m ∈ above, m.IsTree)
    (hw : walk above n parts = .ok (above', n')) : n'.IsTree ∧ ∀ m ∈ above', m.IsTree := by
  fun_induction walk above n parts with
  | case1 =>
    cases hw
    exact ⟨hn, ha⟩
  | case2 => cases hw
  | case3 above es part parts hidle ih => exact ih hn ha hw
  | case4 es part parts hidle hup ih => exact ih hn ha hw
  | case5 es part parts hidle hup parent rest ih =>
    obtain ⟨hparent, hrest⟩ := List.forall_mem_cons.mp ha
    exact ih hparent hrest hw
  | case6 => cases hw
  | case7 => cases hw
  | case8 above es part parts hidle hup hlong child hchild ih =>
    refine ih ?_ (List.forall_mem_cons.mpr ⟨hn, ha⟩) hw
    cases hn with
    | directory distinct names below => exact below _ (mem_of_lookup hchild)

end Node

namespace FileSystem

variable {fs : FileSystem} {p : FilePath} {n : Node} {name : String}

/-- Where the walk to a path starts. -/
def startOf (fs : FileSystem) (p : FilePath) : Except IoError (List Node × Node) :=
  if p.isAbsolute then .ok ([], fs.top) else fs.top.walk [] fs.working

theorem guard_eq_ok {ε α : Type} {c : Prop} [Decidable c] {e : ε} {y : PUnit → Except ε α}
    {x : Except ε α} {a : α} :
    (if c then (throw e : Except ε PUnit) >>= y else x) = .ok a ↔ ¬c ∧ x = .ok a := by
  split
  · next h => exact iff_of_false (fun he => by cases he) fun hn => hn.1 h
  · next h => exact (and_iff_right h).symm

/-- What it takes for a path to lead to a node. -/
theorem node_eq_ok : fs.node p = .ok n ↔ '\x00' ∉ p.text.toList ∧ p.text ≠ "" ∧
    p.text.utf8ByteSize < pathLimit ∧ ∃ start above, fs.startOf p = .ok start ∧
      start.2.walk start.1 p.parts = .ok (above, n) := by
  unfold node
  rw [guard_eq_ok, guard_eq_ok, guard_eq_ok, ← apply_ite (· >>= _)]
  refine and_congr (by simp) (and_congr (by simp) (and_congr (by simp) ?_))
  change (fs.startOf p >>= _) = _ ↔ _
  simp only [bind_eq_ok, pure_eq_ok, Prod.exists, exists_and_left, exists_eq_right]

theorem isTree_of_startOf (h : fs.top.IsTree) {start : List Node × Node}
    (hs : fs.startOf p = .ok start) : start.2.IsTree ∧ ∀ m ∈ start.1, m.IsTree := by
  unfold startOf at hs
  split at hs
  · cases hs
    exact ⟨h, by simp⟩
  · exact Node.isTree_walk h (by simp) hs

theorem isTree_of_node (h : fs.top.IsTree) (hn : fs.node p = .ok n) : n.IsTree := by
  obtain ⟨-, -, -, start, above, hs, hw⟩ := node_eq_ok.mp hn
  obtain ⟨hstart, habove⟩ := isTree_of_startOf h hs
  exact (Node.isTree_walk hstart habove hw).1

/-- The path of an entry leads to it, unless it is too long. -/
theorem Holds.node_join (h : fs.top.IsTree) (hn : fs.Holds p name n)
    (hfit : (p.join name).text.utf8ByteSize < pathLimit) : fs.node (p.join name) = .ok n := by
  obtain ⟨es, hp, hmem⟩ := hn
  have htree := isTree_of_node h hp
  obtain ⟨hzero, hne, -, start, above, hs, hw⟩ := node_eq_ok.mp hp
  have hname : IsFileName name := by
    cases htree with
    | directory distinct names below => exact names _ hmem
  have hbelow : FilePath.isAbsolute ⟨name⟩ = false := FilePath.isAbsolute_eq_false hname
  have hstart : fs.startOf (p.join name) = .ok start := by
    rw [startOf, FilePath.isAbsolute_join hne hbelow]
    exact hs
  obtain ⟨ps, -, hjoin, hparts⟩ := FilePath.parts_join hne hbelow
  have hdir : start.2.walk start.1 ps = .ok (above, .directory es) := by
    rcases hparts with hps | hps <;> rw [hps] at hw
    · exact hw
    · exact Node.walk_concat_idle hw
  refine node_eq_ok.mpr ⟨FilePath.no_zero_join hne hname hzero, FilePath.join_text_ne hne hbelow, hfit,
    start, .directory es :: above, hstart, ?_⟩
  rw [hjoin, FilePath.parts_fileName hname, Node.walk_append, hdir]
  exact Node.walk_entry htree hmem

end FileSystem

end Store

end LogQuery
