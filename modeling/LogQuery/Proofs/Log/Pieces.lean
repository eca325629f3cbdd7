import LogQuery.Proofs.Log.Cut

/-!
# Lines are the pieces between line feeds

The reader of a log numbers the pieces between its line feeds from 1 and leaves out a
carriage return at their ends. A content that ends in a line feed hands its pieces on to
whatever is appended to it, so a log can be rotated between any two lines.
-/

namespace LogQuery.Log

open LogQuery.Text

variable {content first second rest : Bytes} {lines : List Bytes}

/-- What stands between the line feeds of a content. An empty piece after the last of them
is none. -/
def pieces (content : Bytes) : List Bytes := dropLastIf [] (splitOn lineFeed content)

theorem Cut.splitOn_eq (h : Cut content lines rest) : splitOn lineFeed content = lines ++ [rest] := by
  induction lines generalizing content with
  | nil =>
    obtain rfl : content = rest := h.joined
    exact splitOn_eq_singleton h.unended
  | cons line lines ih =>
    rw [h.head.2, splitOn_append_sep, splitOn_eq_singleton h.head.1, ih h.tail]
    rfl

theorem Cut.pieces_eq (h : Cut content lines rest) :
    pieces content = lines ++ if rest = [] then [] else [rest] := by
  rw [pieces, h.splitOn_eq, dropLastIf, List.getLast?_concat, List.dropLast_concat]
  by_cases hrest : rest = [] <;> simp [hrest]

theorem map_snd_pieces (content : Bytes) :
    (numberedLines content).map Prod.snd = (pieces content).map bare := by
  obtain ⟨lines, rest, h⟩ := Cut.exists_cut content
  rw [map_snd_numberedLines h, h.pieces_eq]

/-- The lines of a content are its pieces, numbered without gaps. -/
theorem getElem?_numberedLines (content : Bytes) (i : Nat) :
    (numberedLines content)[i]? = (pieces content)[i]?.map fun piece => (i + 1, bare piece) := by
  have hnumber := congrArg (·[i]?) (map_fst_numberedLines content)
  have hpiece := congrArg (·[i]?) (map_snd_pieces content)
  simp only [List.getElem?_map] at hnumber hpiece
  cases hl : (numberedLines content)[i]? with
  | none =>
    rw [hl, Option.map_none] at hpiece
    rw [Option.map_eq_none_iff.mp hpiece.symm, Option.map_none]
  | some l =>
    obtain ⟨hlt, -⟩ := List.getElem?_eq_some_iff.mp hl
    rw [hl, List.getElem?_range' hlt] at hnumber
    rw [hl] at hpiece
    obtain ⟨piece, hat, hbare⟩ := Option.map_eq_some_iff.mp hpiece.symm
    rw [hat, Option.map_some, hbare]
    have hi : l.1 = i + 1 := by
      have := Option.some.inj hnumber
      omega
    rw [← hi]

theorem lineFeed_not_mem_bare {piece : Bytes} (h : piece ∈ pieces content) :
    lineFeed ∉ bare piece := by
  have hmem : bare piece ∈ (numberedLines content).map Prod.snd := by
    rw [map_snd_pieces]
    exact List.mem_map_of_mem h
  obtain ⟨l, hl, hbare⟩ := List.mem_map.mp hmem
  rw [← hbare]
  exact lineFeed_not_mem_numberedLines hl

/-- After a line feed a line starts, whatever stands before. -/
theorem pieces_append (hfirst : first.getLast? = some lineFeed) (second : Bytes) :
    pieces (first ++ second) = pieces first ++ pieces second := by
  obtain ⟨lines, rest, h⟩ := Cut.exists_cut first
  obtain ⟨more, rest', h'⟩ := Cut.exists_cut second
  obtain rfl := h.rest_eq_nil (.inr hfirst)
  have hall : Cut (first ++ second) (lines ++ more) rest' := by
    rw [h.joined, List.append_nil]
    exact h'.append h.whole
  rw [hall.pieces_eq, h.pieces_eq, h'.pieces_eq, if_pos rfl, List.append_nil, List.append_assoc]

theorem map_snd_numberedLines_append (hfirst : first.getLast? = some lineFeed) (second : Bytes) :
    (numberedLines (first ++ second)).map Prod.snd =
      (numberedLines first).map Prod.snd ++ (numberedLines second).map Prod.snd := by
  rw [map_snd_pieces, map_snd_pieces, map_snd_pieces, pieces_append hfirst, List.map_append]

end LogQuery.Log
