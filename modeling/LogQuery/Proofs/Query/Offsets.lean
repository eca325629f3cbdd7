import LogQuery.Proofs.Query.Lookup
import LogQuery.Proofs.Text.Boundary

/-!
# Restoring by byte offsets

A word of a query can also be looked up byte by byte, with places counted in bytes: in the
lower case of the query's bytes, leaving out the places in literals, and cutting the word out
of the query between the offsets found. Such a search finds the places at which the
characters occur, and a word is cut out as it is counted in characters. So a character is
never cut apart, in whatever characters the query is written.
-/

namespace LogQuery.Query

open Piece Text

/-! ## Searching in bytes -/

/-- Where bytes occur, left to right and without overlap, counting from `position`. -/
def bytesFrom (needle : Bytes) : (skip position : Nat) → Bytes → List Nat
  | _, _, [] => []
  | skip + 1, i, _ :: bs => bytesFrom needle skip (i + 1) bs
  | 0, i, b :: bs =>
    if needle.isPrefixOf (b :: bs) then i :: bytesFrom needle (needle.length - 1) (i + 1) bs
    else bytesFrom needle 0 (i + 1) bs

/-- The byte of an ASCII capital in lower case, and every other byte as it is. -/
def lowerByte (b : UInt8) : UInt8 := if 65 ≤ b.toNat && b.toNat ≤ 90 then b + 32 else b

/-- A byte that could extend a path. -/
def isPathByte (b : UInt8) : Bool := b.toNat < 128 && isPathChar (Char.ofNat b.toNat)

/-- The byte offsets of the literals of a text, from each one's first byte to behind its last
one, inside a literal if one is given by its quote and its start. -/
def byteSpansFrom : (inside : Option (Char × Nat)) → (position : Nat) → List Char → List (Nat × Nat)
  | none, _, [] => []
  | some (_, first), i, [] => [(first, i)]
  | none, i, c :: cs =>
    if isQuote c then byteSpansFrom (some (c, i)) (i + c.utf8Size) cs
    else byteSpansFrom none (i + c.utf8Size) cs
  | some (q, first), i, c :: cs =>
    if c == q then
      match cs with
      | [] => [(first, i + c.utf8Size)]
      | d :: ds =>
        if d == q then byteSpansFrom (some (q, first)) (i + c.utf8Size + d.utf8Size) ds
        else (first, i + c.utf8Size) :: byteSpansFrom none (i + c.utf8Size) (d :: ds)
    else byteSpansFrom (some (q, first)) (i + c.utf8Size) cs

/-- Whether the character at a byte offset of a query belongs to a quoted literal. -/
def isQuotedAt (query : List Char) (b : Nat) : Bool :=
  (byteSpansFrom none 0 query).any fun span => span.1 ≤ b && b < span.2

/-- No byte of a path touches the `length` bytes from `b` on. -/
def isAloneAt (text : Bytes) (b length : Nat) : Bool :=
  !(b != 0 && text[b - 1]?.any isPathByte) && !text[b + length]?.any isPathByte

/-- The byte offset of a text in a query outside quoted literals, up to ASCII case: that of the
first occurrence that stands alone, or else of the first one. -/
def locateBytes? (query needle : List Char) : Option Nat :=
  if needle.isEmpty then none
  else
    let text := (encodeChars query).map lowerByte
    let length := byteLength needle
    let found := (bytesFrom ((encodeChars needle).map lowerByte) 0 0 text).filter fun b =>
      isBoundary query b && isBoundary query (b + length) && !isQuotedAt query b
    (found.find? fun b => isAloneAt text b length).or found.head?

/-- The words of a query that an identifier of the grammar stands for, cut out of it between
byte offsets; nothing if an offset is inside a character. -/
def restoreBytes? (query fragment : List Char) : Option (List Char) :=
  let plain := unmark fragment
  match locateBytes? query plain with
  | some b => sliceBytes? query b (b + byteLength plain)
  | none => some plain

/-- The byte offset of a place. -/
def offset (cs : List Char) (i : Nat) : Nat := byteLength (cs.take i)

variable {q w cs before rest : List Char} {needle bs : Bytes} {c : Char} {i j : Nat}

theorem offset_append (before rest : List Char) :
    offset (before ++ rest) before.length = byteLength before := by
  rw [offset, List.take_left']
  rfl

theorem offset_le (cs : List Char) (h : i ≤ j) : offset cs i ≤ offset cs j := by
  obtain ⟨rest, hrest⟩ := List.take_prefix_take_left (l := cs) h
  rw [offset, offset, ← hrest, byteLength_append]
  exact Nat.le_add_right ..

theorem offset_lt (hi : i < cs.length) (h : i < j) : offset cs i < offset cs j := by
  have hnext : offset cs (i + 1) = offset cs i + cs[i].utf8Size := by
    rw [offset, offset, List.take_succ_eq_append_getElem hi, byteLength_append, byteLength_cons]
    rfl
  have hpos := cs[i].utf8Size_pos
  have hle := offset_le cs (show i + 1 ≤ j from h)
  omega

theorem bytesFrom_pass (needle : Bytes) (skip start : Nat) (bs rest : Bytes) :
    bytesFrom needle (bs.length + skip) start (bs ++ rest) =
      bytesFrom needle skip (start + bs.length) rest := by
  induction bs generalizing start with
  | nil => simp
  | cons b bs ih =>
    have hskip : (b :: bs).length + skip = bs.length + skip + 1 := by
      rw [List.length_cons]
      omega
    rw [hskip, List.cons_append, bytesFrom, ih, List.length_cons]
    congr 1
    omega

/-- What begins like a character is not found inside of one. -/
theorem bytesFrom_inside {b : UInt8} {more : Bytes} (hneedle : needle = b :: more)
    (hb : continuesChar b = false) (hbs : ∀ d ∈ bs, continuesChar d = true) (start : Nat)
    (rest : Bytes) :
    bytesFrom needle 0 start (bs ++ rest) = bytesFrom needle 0 (start + bs.length) rest := by
  subst hneedle
  induction bs generalizing start with
  | nil => rfl
  | cons d bs ih =>
    obtain ⟨hd, hbs⟩ := List.forall_mem_cons.mp hbs
    have hne : (b == d) = false := by
      rw [beq_eq_false_iff_ne]
      rintro rfl
      rw [hd] at hb
      cases hb
    rw [List.cons_append, bytesFrom, if_neg (by simp [List.isPrefixOf, hne]), ih hbs, List.length_cons]
    congr 1
    omega

/-- A text is found in the bytes of another one where it is found in its characters. -/
theorem bytesFrom_encodeChars {needle : List Char} (hneedle : needle ≠ []) (skip : Nat)
    (before cs : List Char) :
    bytesFrom (encodeChars needle) (byteLength (cs.take skip)) (byteLength before) (encodeChars cs) =
      (occurrencesFrom needle skip before.length cs).map (offset (before ++ cs)) := by
  obtain ⟨n, ns, rfl⟩ := List.exists_cons_of_ne_nil hneedle
  obtain ⟨b, bs, hchar, hb, -⟩ := exists_encodeChar_eq n
  have hbytes : encodeChars (n :: ns) = b :: (bs ++ encodeChars ns) := by
    rw [encodeChars_cons, hchar, List.cons_append]
  induction cs generalizing skip before with
  | nil => cases skip <;> rfl
  | cons c cs ih =>
    obtain ⟨d, ds, hchar', -, hds⟩ := exists_encodeChar_eq c
    have hsize : c.utf8Size = ds.length + 1 := by
      rw [← String.length_utf8EncodeChar, hchar', List.length_cons]
    have hnext (skip : Nat) : bytesFrom (encodeChars (n :: ns)) (byteLength (cs.take skip))
        (byteLength before + 1 + ds.length) (encodeChars cs) =
        (occurrencesFrom (n :: ns) skip (before.length + 1) cs).map (offset (before ++ c :: cs)) := by
      have h := ih skip (before ++ [c])
      rw [byteLength_append, byteLength_cons, byteLength_nil, hsize, List.length_append,
        List.append_assoc] at h
      rw [show byteLength before + 1 + ds.length = byteLength before + (ds.length + 1 + 0) by omega]
      exact h
    rw [encodeChars_cons c, hchar', List.cons_append]
    cases skip with
    | succ skip =>
      rw [List.take_succ_cons, byteLength_cons, hsize, Nat.add_right_comm, bytesFrom, bytesFrom_pass,
        hnext]
      rfl
    | zero =>
      have hprefix : (encodeChars (n :: ns)).isPrefixOf (d :: (ds ++ encodeChars cs)) =
          (n :: ns).isPrefixOf (c :: cs) := by
        rw [Bool.eq_iff_iff, List.isPrefixOf_iff_prefix, List.isPrefixOf_iff_prefix,
          ← encodeChars_prefix_iff, encodeChars_cons c, hchar', List.cons_append]
      rw [List.take_zero, byteLength_nil, bytesFrom, hprefix, occurrencesFrom]
      split
      · next hhere =>
        have hneedle : n :: ns = c :: cs.take ns.length := by
          simpa using List.prefix_iff_eq_take.mp (List.isPrefixOf_iff_prefix.mp hhere)
        have hlength : (encodeChars (n :: ns)).length - 1 =
            ds.length + byteLength (cs.take ((n :: ns).length - 1)) := by
          rw [← byteLength, hneedle, byteLength_cons, hsize, ← hneedle, List.length_cons,
            Nat.add_sub_cancel]
          omega
        rw [hlength, bytesFrom_pass, hnext, List.map_cons, offset_append]
      · rw [bytesFrom_inside hbytes hb hds]
        exact hnext 0

/-! ## Bytes of a lower-cased query -/

theorem toNat_toLower_lt (h : c.toNat < 128) : c.toLower.toNat < 128 := by
  have hall : ∀ n < 128, (Char.ofNat n).toLower.toNat < 128 := by decide +kernel
  simpa using hall c.toNat h

theorem toLower_of_not_ascii (h : 128 ≤ c.toNat) : c.toLower = c := by
  refine Char.toLower_eq_of_not_isUpper ?_
  rw [isUpper_iff]
  omega

theorem toNat_lt_of_isPathChar (h : isPathChar c = true) : c.toNat < 128 := by
  have halnum : c.isAlphanum = true → c.toNat < 128 := by
    intro h
    obtain halpha | hdigit := Bool.or_eq_true_iff.mp h
    · rw [isAlpha_iff] at halpha
      omega
    · rw [isDigit_iff] at hdigit
      omega
  simp only [isPathChar, Bool.or_eq_true, beq_iff_eq] at h
  obtain (((halpha | rfl) | rfl) | rfl) | rfl := h
  · exact halnum halpha
  all_goals decide

theorem map_lowerByte_encodeChar (c : Char) :
    (String.utf8EncodeChar c).map lowerByte = String.utf8EncodeChar c.toLower := by
  obtain h | h := Nat.lt_or_ge c.toNat 128
  · have hall : ∀ n < 128, lowerByte (UInt8.ofNat n) = UInt8.ofNat (Char.ofNat n).toLower.toNat := by
      decide +kernel
    rw [encodeChar_ascii h, encodeChar_ascii (toNat_toLower_lt h), List.map_singleton, hall _ h,
      Char.ofNat_toNat]
  · have hkept : ∀ b ∈ String.utf8EncodeChar c, lowerByte b = b := by
      intro b hb
      have hle := le_of_mem_encodeChar h hb
      rw [lowerByte, decide_eq_false (show ¬ b.toNat ≤ 90 by omega), Bool.and_false]
      rfl
    rw [toLower_of_not_ascii h, List.map_congr_left hkept, List.map_id']

/-- Bytes are put in lower case as their characters are. -/
theorem map_lowerByte_encodeChars (cs : List Char) :
    (encodeChars cs).map lowerByte = encodeChars (lowerAscii cs) := by
  induction cs with
  | nil => rfl
  | cons c cs ih =>
    have hcons : lowerAscii (c :: cs) = c.toLower :: lowerAscii cs := rfl
    rw [hcons, encodeChars_cons, encodeChars_cons, List.map_append, map_lowerByte_encodeChar, ih]

@[simp] theorem byteLength_lowerAscii (cs : List Char) : byteLength (lowerAscii cs) = byteLength cs := by
  rw [byteLength, ← map_lowerByte_encodeChars, List.length_map]
  rfl

theorem offset_lowerAscii (cs : List Char) : offset (lowerAscii cs) = offset cs := by
  funext i
  rw [offset, lowerAscii, ← List.map_take, ← lowerAscii, byteLength_lowerAscii]
  rfl

theorem isPathByte_of_mem_encodeChar {b : UInt8} (hb : b ∈ String.utf8EncodeChar c) :
    isPathByte b = isPathChar c := by
  obtain h | h := Nat.lt_or_ge c.toNat 128
  · rw [encodeChar_ascii h, List.mem_singleton] at hb
    rw [hb, isPathByte, toNat_ofNat_ascii h, Char.ofNat_toNat, decide_eq_true h, Bool.true_and]
  · have hle := le_of_mem_encodeChar h hb
    have hpath : isPathChar c = false := by
      rw [← Bool.not_eq_true]
      intro hpath
      have hlt := toNat_lt_of_isPathChar hpath
      omega
    rw [isPathByte, hpath, decide_eq_false (by omega), Bool.false_and]

theorem getLast?_any_isPathByte (cs : List Char) :
    (encodeChars (lowerAscii cs)).getLast?.any isPathByte = cs.getLast?.any isPathChar := by
  cases cs using List.reverseRecOn with
  | nil => rfl
  | append_singleton cs c =>
    have hlast := List.getLast?_eq_some_getLast (String.utf8EncodeChar_ne_nil (c := c.toLower))
    rw [lowerAscii_append, encodeChars_append, List.getLast?_concat]
    show ((_ ++ encodeChars [c.toLower]).getLast?).any isPathByte = _
    rw [encodeChars_singleton, List.getLast?_append, hlast, Option.some_or, Option.any_some,
      isPathByte_of_mem_encodeChar (List.getLast_mem _), isPathChar_toLower, Option.any_some]

theorem head?_any_isPathByte (cs : List Char) :
    (encodeChars (lowerAscii cs)).head?.any isPathByte = cs.head?.any isPathChar := by
  cases cs with
  | nil => rfl
  | cons c cs =>
    obtain ⟨b, bs, hchar, -⟩ := exists_encodeChar_eq c.toLower
    have hb : b ∈ String.utf8EncodeChar c.toLower := hchar ▸ List.mem_cons_self
    have hcons : encodeChars (lowerAscii (c :: cs)) = b :: (bs ++ encodeChars (lowerAscii cs)) := by
      rw [show lowerAscii (c :: cs) = c.toLower :: lowerAscii cs from rfl, encodeChars_cons, hchar,
        List.cons_append]
    rw [hcons, List.head?_cons, List.head?_cons, Option.any_some, Option.any_some,
      isPathByte_of_mem_encodeChar hb, isPathChar_toLower]

/-! ## Literals by their bytes -/

theorem offset_succ (h : cs.drop i = c :: rest) : offset cs (i + 1) = offset cs i + c.utf8Size := by
  have htake : cs.take (i + 1) = cs.take i ++ [c] := by rw [List.take_add, h]; rfl
  rw [offset, htake, byteLength_append, byteLength_cons]
  rfl

theorem drop_succ_of_drop_eq (h : cs.drop i = c :: rest) : cs.drop (i + 1) = rest := by
  rw [← List.tail_drop, h, List.tail_cons]

/-- The literals found by their bytes begin and end at the offsets of their places. -/
theorem byteSpansFrom_eq (inside : Option (Char × Nat)) (h : cs.drop i = rest) :
    byteSpansFrom (inside.map fun literal => (literal.1, offset cs literal.2)) (offset cs i) rest =
      (spansFrom inside i rest).map fun span => (offset cs span.1, offset cs span.2) := by
  induction inside, i, rest using spansFrom.induct with
  | case1 => rfl
  | case2 => rfl
  | case3 i c rest hc ih =>
    have hrest := ih (drop_succ_of_drop_eq h)
    rw [offset_succ h] at hrest
    simpa [byteSpansFrom, spansFrom, hc] using hrest
  | case4 i c rest hc ih =>
    have hrest := ih (drop_succ_of_drop_eq h)
    rw [offset_succ h] at hrest
    simpa [byteSpansFrom, spansFrom, hc] using hrest
  | case5 q first i c hc => simp [byteSpansFrom, spansFrom, hc, offset_succ h]
  | case6 q first i c hc d rest hd ih =>
    have hrest := ih (drop_succ_of_drop_eq (drop_succ_of_drop_eq h))
    rw [offset_succ (drop_succ_of_drop_eq h), offset_succ h] at hrest
    simpa [byteSpansFrom, spansFrom, hc, hd] using hrest
  | case7 q first i c hc d rest hd ih =>
    have hrest := ih (drop_succ_of_drop_eq h)
    rw [offset_succ h] at hrest
    simpa [byteSpansFrom, spansFrom, hc, hd, offset_succ h] using hrest
  | case8 q first i c rest hc ih =>
    have hrest := ih (drop_succ_of_drop_eq h)
    rw [offset_succ h] at hrest
    cases rest <;> simpa [byteSpansFrom, spansFrom, hc] using hrest

theorem offset_le_iff (hi : i < cs.length) : offset cs j ≤ offset cs i ↔ j ≤ i :=
  ⟨fun h => Nat.le_of_not_lt fun hlt => Nat.not_le_of_lt (offset_lt hi hlt) h, offset_le cs⟩

theorem offset_lt_iff (hi : i < cs.length) : offset cs i < offset cs j ↔ i < j :=
  ⟨fun h => Nat.lt_of_not_le fun hle => Nat.not_lt_of_le (offset_le cs hle) h, offset_lt hi⟩

/-- A character is in a literal when its first byte is. -/
theorem isQuotedAt_offset (hi : i < q.length) :
    isQuotedAt q (offset q i) = (quotedFlags q).getD i false := by
  have hspans : byteSpansFrom none 0 q =
      (quotedSpans q).map fun span => (offset q span.1, offset q span.2) :=
    byteSpansFrom_eq none (List.drop_zero : q.drop 0 = q)
  rw [isQuotedAt, Bool.eq_iff_iff, (literalsKept q).flagged, hspans, List.any_map, List.any_eq_true]
  refine exists_congr fun span => and_congr_right fun _ => ?_
  rw [Function.comp_apply, Bool.and_eq_true, decide_eq_true_eq, decide_eq_true_eq, offset_le_iff hi,
    offset_lt_iff hi]

/-! ## Looking up in bytes -/

/-- A word at a place of a query, as its bytes tell. -/
structure BytesAt (q w : List Char) (i : Nat) : Prop where
  first : isBoundary q (offset q i) = true
  last : isBoundary q (offset q i + byteLength w) = true
  quoted : isQuotedAt q (offset q i) = (quotedFlags q).getD i false
  alone : isAloneAt ((encodeChars q).map lowerByte) (offset q i) (byteLength w) =
    standsAlone q i w.length
  sliced : sliceBytes? q (offset q i) (offset q i + byteLength w) = some (slice q w i)

theorem bytesAt (hw : w ≠ []) (hsame : lowerAscii (slice q w i) = lowerAscii w) : BytesAt q w i := by
  obtain ⟨before, found, after, rfl, rfl, hfound⟩ := exists_append_of_same hw hsame
  have hlength := length_eq_of_same hfound
  have hbytes : byteLength found = byteLength w := by
    rw [← byteLength_lowerAscii, hfound, byteLength_lowerAscii]
  have hpos := List.length_pos_iff.mpr hw
  refine ⟨?_, ?_, isQuotedAt_offset (by simp; omega), ?_, ?_⟩
  · rw [offset_append, isBoundary, splitBytes?_append]
    rfl
  · rw [offset_append, ← hbytes, ← byteLength_append, ← List.append_assoc, isBoundary,
      splitBytes?_append]
    rfl
  · rw [offset_append, ← hbytes, map_lowerByte_encodeChars, lowerAscii_append, lowerAscii_append,
      encodeChars_append, encodeChars_append, ← byteLength_lowerAscii before,
      ← byteLength_lowerAscii found, isAloneAt, byteLength, byteLength, any_neighbour_left,
      any_neighbour_right, standsAlone, ← hlength, any_neighbour_left, any_neighbour_right,
      getLast?_any_isPathByte, head?_any_isPathByte]
  · rw [offset_append, ← hbytes, slice_append hlength, sliceBytes?_append]

/-- The search in bytes finds the place that the search in characters does. -/
theorem locateBytes?_eq (q w : List Char) : locateBytes? q w = (locate q w).map (offset q) := by
  by_cases hw : w = []
  · simp [locateBytes?, locate, hw]
  · have hfound : bytesFrom ((encodeChars w).map lowerByte) 0 0 ((encodeChars q).map lowerByte) =
        (occurrences (lowerAscii w) (lowerAscii q)).map (offset q) := by
      have h := bytesFrom_encodeChars (lowerAscii_ne_nil hw) 0 [] (lowerAscii q)
      rwa [List.nil_append, offset_lowerAscii, ← map_lowerByte_encodeChars,
        ← map_lowerByte_encodeChars] at h
    have hfree : ∀ i ∈ occurrences (lowerAscii w) (lowerAscii q),
        (isBoundary q (offset q i) && isBoundary q (offset q i + byteLength w) &&
          !isQuotedAt q (offset q i)) = !(quotedFlags q).getD i false := by
      intro i hi
      have h := bytesAt hw (same_of_mem_occurrences hw hi)
      rw [h.first, h.last, h.quoted]
      rfl
    have halone : ∀ i ∈ occurrences (lowerAscii w) (lowerAscii q),
        (!(quotedFlags q).getD i false &&
          isAloneAt ((encodeChars q).map lowerByte) (offset q i) (byteLength w)) =
        (!(quotedFlags q).getD i false && standsAlone q i w.length) := by
      intro i hi
      rw [(bytesAt hw (same_of_mem_occurrences hw hi)).alone]
    rw [locateBytes?, locate, if_neg (by simpa using hw), if_neg (by simpa using hw)]
    simp only [hfound, List.filter_map, Function.comp_def]
    rw [List.filter_congr hfree, List.find?_map, List.find?_filter, List.head?_map, List.head?_filter]
    simp only [Function.comp_def, Bool.decide_and, Bool.decide_eq_true]
    rw [List.find?_congr halone, Option.map_or]

/-- What is cut out between byte offsets is what is cut out between places. -/
theorem restoreBytes?_eq (q fragment : List Char) :
    restoreBytes? q fragment = some (restoreChars q fragment) := by
  simp only [restoreBytes?, locateBytes?_eq, restoreChars]
  cases hplace : locate q (unmark fragment) with
  | none => rfl
  | some i =>
    obtain ⟨hw, hi, -⟩ := mem_of_locate hplace
    exact (bytesAt hw (same_of_mem_occurrences hw hi)).sliced

/-- A word comes back as it stands in the query, or as it is if it is not found there, and is
always cut out between characters. Of a word of path characters it is the first place where it
stands alone, or else the first one that the search comes by. -/
theorem restore_slices (query : List Char) (fragment : String) :
    restoreBytes? query fragment.toList = some ((Marked.ofChars query).restore fragment).toList ∧
      ∃ place, locateBytes? query (unmark fragment.toList) = place.map (offset query) ∧
        ((Marked.ofChars query).restore fragment).toList =
          (place.map (slice query (unmark fragment.toList))).getD (unmark fragment.toList) ∧
        Located query (unmark fragment.toList) place := by
  have hrestore : ((Marked.ofChars query).restore fragment).toList =
      restoreChars query fragment.toList := String.toList_ofList
  rw [hrestore]
  refine ⟨restoreBytes?_eq .., locate query (unmark fragment.toList), locateBytes?_eq .., ?_,
    located_locate ..⟩
  rw [restoreChars]
  cases locate query (unmark fragment.toList) with
  | none => simp only [Option.map_none, Option.getD_none]
  | some i => simp only [Option.map_some, Option.getD_some, slice]

/-- A character of the word and one before it take two bytes each. -/
example : locateBytes? "é = ÜBER.ID".toList "ÜBer.id".toList = some 5 := by decide +kernel

end LogQuery.Query
