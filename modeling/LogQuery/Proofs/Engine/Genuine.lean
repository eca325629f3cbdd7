import LogQuery.Proofs.Engine.Completeness
import LogQuery.Proofs.Log.Cut
import LogQuery.Proofs.Record.Output

/-!
# What a search sends is found

Whatever happens to a search, also when it is cancelled or a file cannot be read, each
record that it sends is the output of a line that matches. So it has no line feed.
-/

namespace LogQuery.Engine

open LogQuery.Text LogQuery.Store LogQuery.Log LogQuery.Search LogQuery.Record

variable {job : SearchJob} {s s' : Search} {scan : Scan MatchRanges} {sent : Nat → List String}

/-- The records of a stream are among those of the search. -/
def Genuine (job : SearchJob) (items : List Item) : Prop := ∀ r, .record r ∈ items → r ∈ job.records

theorem mem_records {p : FilePath} {r : String} (hp : p ∈ job.files)
    (hr : r ∈ recordsOn job.plan (linesIn job.fs p)) : r ∈ job.records :=
  List.mem_flatMap.mpr ⟨p, hp, hr⟩

theorem records_visitor_subset (lines : List (Nat × Bytes)) :
    job.visitor.records lines ⊆ recordsOn job.plan lines := by
  unfold SearchJob.visitor
  split
  · rw [records_noting]
    exact List.nil_subset _
  · exact List.Subset.refl _

/-- A scan sends records of its files only. -/
theorem Carries.genuine (hc : Carries job.files scan sent)
    (hf : Faithful job.fs job.visitor job.files scan sent) : Genuine job scan.channel.items := by
  intro r hr
  obtain ⟨r', hsent, he⟩ := List.mem_map.mp (hc.mem_iff.mp hr)
  cases he
  obtain ⟨i, hi, hr⟩ := List.mem_flatMap.mp hsent
  have hi := List.mem_range.mp hi
  have hat := hf.task (List.getElem?_eq_getElem hi)
    (List.getElem?_eq_getElem (hf.length ▸ hi : i < scan.tasks.length))
  exact mem_records (List.getElem_mem hi)
    (records_visitor_subset _ (hat.sent_isPrefix.subset hr))

/-- A step after the scan sends nothing, or what its phase has to send. -/
theorem Emits.items {phase : Phase} (he : Emits job s phase s') : s'.items = s.items ∨
    (∃ f, s'.items = s.items ++ [.failure f]) ∨
    ∃ record path reader ranges last rest, phase = .sending record path reader ranges last rest ∧
      s'.items = s.items ++ [.record record] := by
  cases he with
  | sent hc => exact .inr (.inr ⟨_, _, _, _, _, _, rfl, (Channel.send_accepted hc).items⟩)
  | failureSent hc => exact .inr (.inl ⟨_, (Channel.send_accepted hc).items⟩)
  | _ => exact .inl rfl

/-- A record that waits to be sent is one of the search. -/
theorem PhaseAt.mem_records {c : Channel Item} {record : String} {path : FilePath}
    {reader : LineReader} {ranges : MatchRanges} {last : Nat}
    {rest : List (FilePath × MatchRanges)} (hu : Unchanged job.fs job.again)
    (h : PhaseAt job c (.sending record path reader ranges last rest)) : record ∈ job.records := by
  cases h with
  | @sending done files _ before line _ _ _ _ ho hf hrest hr hlast hrecord =>
    have hp : path ∈ job.files := hf ▸ List.mem_append_cons_self
    have hline : line ∈ linesIn job.fs path :=
      (hu.linesIn_isPrefix (ho.readable path hp)).1.subset (by rw [hr.lines]; simp)
    rw [recordsOn_singleton, Option.toList_eq_singleton_iff] at hrecord
    exact Engine.mem_records hp (List.mem_filterMap.mpr ⟨line, hline, hrecord⟩)

theorem Genuine.emit (hu : Unchanged job.fs job.again) (hg : Genuine job s.items)
    (hs : Sound job s) : Genuine job (s.emit job).items := by
  intro r hr
  rcases (emit_emits job s).items with heq | ⟨f, heq⟩ | ⟨record, _, _, _, _, _, hphase, heq⟩
  · exact hg r (heq ▸ hr)
  · rw [heq] at hr
    exact hg r (by simpa using hr)
  · rw [heq] at hr
    rcases List.mem_append.mp hr with hr | hr
    · exact hg r hr
    · cases List.mem_singleton.mp hr
      exact PhaseAt.mem_records hu (hphase ▸ hs.phaseAt (by simp [hphase]))

theorem Genuine.step (hu : Unchanged job.fs job.again) (hg : Genuine job s.items)
    (hs : Sound job s) (e : SearchEvent) : Genuine job (s.step job e).items := by
  cases e with
  | emit => exact hg.emit hu hs
  | scan e =>
    cases hs with
    | scanning hf hc =>
      obtain ⟨sent', hf', hc'⟩ := hf.step hc e
      exact hc'.genuine hf'
    | emitting hf hrs hp =>
      refine fun r hr => hg r ?_
      rwa [Search.items, ← (step_of_results hrs e).2.1]

theorem Genuine.run (hu : Unchanged job.fs job.again) (hg : Genuine job s.items)
    (hs : Sound job s) (events : List SearchEvent) : Genuine job (s.run job events).items := by
  induction events generalizing s with
  | nil => exact hg
  | cons e events ih => exact ih (hg.step hu hs e) (hs.step hu e)

section Records

variable {c : Config} {fs : FileSystem} {plan : Plan} {files : List FilePath} {cancelled : Bool}
  {events : List SearchEvent} {r : String}

/-- A record is the output of a line of one of the files. -/
theorem exists_line_of_mem_recordsIn (hr : r ∈ recordsIn fs plan files) :
    ∃ p ∈ files, ∃ content, fs.bytes? p = some content ∧ ∃ l ∈ numberedLines content, ∃ record,
      plan.matchLine? l.2 = some record ∧ output plan l.2 record = r := by
  obtain ⟨p, hp, hr⟩ := List.mem_flatMap.mp hr
  obtain ⟨l, hl, hr⟩ := List.mem_filterMap.mp hr
  obtain ⟨record, hrecord, hout⟩ := Option.map_eq_some_iff.mp hr
  obtain ⟨content, hbytes, hl⟩ := exists_bytes_of_mem_linesIn hl
  exact ⟨p, hp, content, hbytes, l, hl, record, hrecord, hout⟩

theorem lineFeed_not_mem_record (hr : r ∈ recordsIn fs plan files) : '\n' ∉ r.toList := by
  obtain ⟨p, -, content, -, l, hl, record, hrecord, rfl⟩ := exists_line_of_mem_recordsIn hr
  rw [output, String.toList_ofList]
  exact lineFeed_not_mem_outputChars hrecord (lineFeed_not_mem_numberedLines hl)

/-- A search has sent no record but those on the lines of its files. -/
theorem searchUnder_genuine (hr : .record r ∈ (searchUnder c fs plan files cancelled events).items) :
    r ∈ recordsIn fs plan files := by
  have hstart : Genuine (searchJob c fs plan files) (Search.start (searchJob c fs plan files)
      c.maxParallelism cancelled c.searchBuffer).items := nofun
  exact Genuine.run (.refl fs) hstart (sound_start ..) events r hr

end Records

end LogQuery.Engine
