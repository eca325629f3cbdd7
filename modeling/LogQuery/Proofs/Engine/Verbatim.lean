import LogQuery.Proofs.Engine.Genuine
import LogQuery.Proofs.Log.Pieces

/-!
# Records as they stand in their file

A search without projections sends the bytes between two line feeds, without the line
terminator. Two functions take a terminator off, one after the other: the reader of the
file and the output of the record. So of two carriage returns at the end of a line both
are lost, where only one belongs to the terminator; nothing else is ever lost or changed.
-/

namespace LogQuery.Log

open LogQuery.Text

/-- A second carriage return is all that is dropped from a line without its terminator. -/
theorem bare_bare_eq_iff (piece : Bytes) :
    bare (bare piece) = bare piece ↔ ¬ [carriageReturn, carriageReturn] <:+ piece := by
  constructor
  · rintro heq ⟨before, rfl⟩
    have hbare : bare (before ++ [carriageReturn, carriageReturn]) = before ++ [carriageReturn] := by
      simp [bare, dropLastIf]
    rw [hbare] at heq
    simpa [bare, dropLastIf] using congrArg List.length heq
  · intro hnot
    refine bare_eq_self fun hlast => hnot ?_
    obtain ⟨before, hbefore⟩ := List.getLast?_eq_some_iff.mp hlast
    rw [bare, dropLastIf] at hbefore
    split at hbefore
    next hend =>
      obtain ⟨front, rfl⟩ := List.getLast?_eq_some_iff.mp (eq_of_beq hend)
      rw [List.dropLast_concat] at hbefore
      exact ⟨before, by rw [hbefore, List.append_assoc]; rfl⟩
    next hend => exact absurd (by rw [hbefore]; simp) hend

end LogQuery.Log

namespace LogQuery.Engine

open LogQuery.Text LogQuery.Store LogQuery.Log LogQuery.Search LogQuery.Record

variable {c : Config} {fs : FileSystem} {plan : Plan} {files : List FilePath} {cancelled : Bool}
  {events : List SearchEvent} {r : String}

/-- Without projections a record has the bytes of a piece of one of the files, without what
the reader and then the output take off at its end. -/
theorem exists_piece (hp : plan.projections = []) (hr : r ∈ recordsIn fs plan files) :
    ∃ p ∈ files, ∃ content, fs.bytes? p = some content ∧ ∃ piece ∈ pieces content,
      plan.matchesLine (bare piece) = true ∧ encode r = bare (bare piece) := by
  obtain ⟨p, hfile, content, hbytes, l, hl, record, hmatch, rfl⟩ := exists_line_of_mem_recordsIn hr
  have hline : l.2 ∈ (numberedLines content).map Prod.snd := List.mem_map_of_mem hl
  rw [map_snd_pieces] at hline
  obtain ⟨piece, hpiece, hbare⟩ := List.mem_map.mp hline
  rw [← hbare] at hmatch
  refine ⟨p, hfile, content, hbytes, piece, hpiece, ?_, ?_⟩
  · rw [Plan.matchesLine, hmatch, Option.isSome_some]
  · rw [← hbare, encode, output, String.toList_ofList,
      encodeChars_outputChars hp (ofLine?_of_matchLine? hmatch)]
    exact stripTerminatorBytes_rest (lineFeed_not_mem_bare hpiece)

/-- Every record that a search without projections sends is the bytes of a line that
matches: what stands between two line feeds of a file, without a carriage return at its end.
It is also without a second carriage return there, and this is all that it can lack. -/
theorem sent_as_it_stands (hp : plan.projections = [])
    (hr : .record r ∈ (searchUnder c fs plan files cancelled events).items) :
    ∃ p ∈ files, ∃ content, fs.bytes? p = some content ∧ ∃ piece ∈ pieces content,
      plan.matchesLine (bare piece) = true ∧ encode r = bare (bare piece) ∧
      (encode r = bare piece ↔ ¬ [carriageReturn, carriageReturn] <:+ piece) := by
  obtain ⟨p, hfile, content, hbytes, piece, hpiece, hmatch, hencoded⟩ :=
    exists_piece hp (searchUnder_genuine hr)
  exact ⟨p, hfile, content, hbytes, piece, hpiece, hmatch, hencoded,
    by rw [hencoded, bare_bare_eq_iff]⟩

/-- A log of two lines, the first of which ends in two carriage returns. -/
def returnsContent : Bytes := encode "\x7b\"n\":3\x7d\r\r\n\x7b\"n\":4\x7d\r\n"

def returns : FileSystem where
  top := .directory [("log", .file returnsContent)]
  working := []

/-- What a search sends that reads the log with one task. -/
def returnsItems : List Item :=
  let c : Config := ⟨⟨"/"⟩, 1, false, 1⟩
  (searchUnder c returns (large .search) [theLog] false
    (searchJob c returns (large .search) [theLog]).inTurn).items

theorem returnsItems_eq : returnsItems = [.record "\x7b\"n\":3\x7d", .record "\x7b\"n\":4\x7d"] := by
  decide +kernel

/-- The record on the second line is sent as it stands there. -/
theorem sent_as_it_stands_oneReturn :
    (large .search).projections = [] ∧ .record "\x7b\"n\":4\x7d" ∈ returnsItems ∧
      ∃ p ∈ [theLog], ∃ content, returns.bytes? p = some content ∧ ∃ piece ∈ pieces content,
        (large .search).matchesLine (bare piece) = true ∧
        encode "\x7b\"n\":4\x7d" = bare (bare piece) ∧
        (encode "\x7b\"n\":4\x7d" = bare piece ↔ ¬ [carriageReturn, carriageReturn] <:+ piece) := by
  have hsent : .record "\x7b\"n\":4\x7d" ∈ returnsItems := by
    rw [returnsItems_eq]
    exact List.mem_cons_of_mem _ (List.mem_singleton_self _)
  exact ⟨rfl, hsent, sent_as_it_stands rfl hsent⟩

/-- The record on the first line is not sent as it stands there: the second carriage return
is lost. -/
theorem not_sent_as_it_stands_twoReturns :
    ¬ ∀ (c : Config) (fs : FileSystem) (plan : Plan) (files : List FilePath)
      (events : List SearchEvent) (r : String), plan.projections = [] →
        .record r ∈ (searchUnder c fs plan files false events).items →
        ∃ p ∈ files, ∃ content, fs.bytes? p = some content ∧ ∃ piece ∈ pieces content,
          plan.matchesLine (bare piece) = true ∧ encode r = bare piece := by
  intro hclaim
  have hsent : .record "\x7b\"n\":3\x7d" ∈ returnsItems := by
    rw [returnsItems_eq]
    exact List.mem_cons_self
  obtain ⟨p, hp, content, hbytes, piece, hpiece, -, hencoded⟩ := hclaim _ _ _ _ _ _ rfl hsent
  obtain rfl := List.mem_singleton.mp hp
  have hcontent : returns.bytes? theLog = some returnsContent := rfl
  obtain rfl := Option.some.inj (hbytes.symm.trans hcontent)
  have hdiffers : ∀ piece ∈ pieces returnsContent, encode "\x7b\"n\":3\x7d" ≠ bare piece := by
    decide +kernel
  exact hdiffers piece hpiece hencoded

end LogQuery.Engine
