import LogQuery.Cli.Run
import LogQuery.Proofs.Engine.Genuine
import LogQuery.Proofs.Hub.Reply
import LogQuery.Text.Split

/-!
# Records on lines of their own

On `/query-for-lines` and on the command line each record of a search is followed by a line
feed. Records have none themselves, so cutting what is written at its line feeds gives them
back one by one, wherever the search stopped.
-/

namespace LogQuery.Hub

open LogQuery.Text LogQuery.Store LogQuery.Engine LogQuery.Cli

/-- A stream with one failure at most is what some records and that failure make. -/
theorem exists_sent {items : List Item} (h : OneFailure items) :
    ∃ records failure?, items = sent records failure? := by
  obtain ⟨records, h | ⟨f, h⟩⟩ := h
  · exact ⟨records, none, h.trans (List.append_nil _).symm⟩
  · exact ⟨records, some f, h⟩

theorem record_mem_sent {records : List String} {failure? : Option Failure} {r : String} :
    .record r ∈ sent records failure? ↔ r ∈ records := by
  cases failure? <;> simp [sent]

theorem ofSearch_sent (records : List String) (failure? : Option Failure) (output : String) :
    (Outcome.ofSearch output (sent records failure?)).output = output ++ unlines records := by
  induction records generalizing output with
  | nil => cases failure? <;> simp [sent, Outcome.ofSearch, Outcome.success, Outcome.failure, unlines]
  | cons r records ih =>
    have hstep : Outcome.ofSearch output (sent (r :: records) failure?) =
        Outcome.ofSearch (output ++ r ++ "\n") (sent records failure?) := rfl
    rw [hstep, ih]
    simp [unlines, String.append_assoc]

/-- What is printed as lines is cut at their ends and within those that have line feeds. -/
theorem splitOn_unlines_flatMap (texts : List String) :
    splitOn '\n' (unlines texts).toList =
      (texts.map String.toList).flatMap (splitOn '\n') ++ [[]] := by
  have hlines : (unlines texts).toList = (texts.map String.toList).flatMap (· ++ ['\n']) := by
    simp [unlines, List.flatMap_map]
  rw [hlines, splitOn_flatMap]

theorem splitOn_unlines {records : List String} (h : ∀ r ∈ records, '\n' ∉ r.toList) :
    splitOn '\n' (unlines records).toList = records.map String.toList ++ [[]] := by
  rw [splitOn_unlines_flatMap, flatMap_splitOn_eq_iff.mpr (List.forall_mem_map.mpr h)]

/-- **Lines of records.** Whatever has happened to a search, it has sent records of its files
without line feeds, and perhaps a failure, and the records are the parts of what is written of
it between its line feeds: of the body on `/query-for-lines` and of the standard output. -/
theorem records_framed (c : Config) (fs : FileSystem) (plan : Plan) (files : List FilePath)
    (cancelled : Bool) (events : List SearchEvent) :
    let items := (searchUnder c fs plan files cancelled events).items
    ∃ records failure?, items = sent records failure? ∧
      (∀ r ∈ records, r ∈ recordsIn fs plan files ∧ '\n' ∉ r.toList) ∧
      splitOn '\n' (Reply.linesOfAnswer (.search items)).body.toList =
        records.map String.toList ++ [[]] ∧
      splitOn '\n' (Outcome.ofAnswer (.search items)).output.toList =
        records.map String.toList ++ [[]] := by
  intro items
  have hone : OneFailure items := searchUnder_sound.oneFailure
  obtain ⟨records, failure?, hitems⟩ := exists_sent hone
  have hrecords : ∀ r ∈ records, r ∈ recordsIn fs plan files ∧ '\n' ∉ r.toList := by
    intro r hr
    have hsent : .record r ∈ items := hitems ▸ record_mem_sent.mpr hr
    have hmem : r ∈ recordsIn fs plan files := searchUnder_genuine hsent
    exact ⟨hmem, lineFeed_not_mem_record hmem⟩
  have hsplit := splitOn_unlines fun r hr => (hrecords r hr).2
  refine ⟨records, failure?, hitems, hrecords, ?_, ?_⟩
  · rw [hitems, linesOfAnswer_sent]
    exact hsplit
  · rw [hitems, Outcome.ofAnswer, ofSearch_sent, String.empty_append]
    exact hsplit

end LogQuery.Hub
