import Mathlib.Data.Set.List
import LogQuery.Proofs.Engine.Matches
import LogQuery.Proofs.Engine.Outcome

/-!
# What a search emits

`PhaseAt` lists where a search may stand after its scan, by what its channel
carries. In order, the records of the files it has left are on the channel and,
of the file it reads, those of the lines before the reader. The files hold the same
when they are read again, but it may not be possible to read all of it. Nothing here
says that a search comes to its end.
-/

namespace LogQuery.Engine

open LogQuery.Text LogQuery.Store LogQuery.Log LogQuery.Search LogQuery.Record

section Emits

/-- What a step after the scan makes of a search, by its phase. -/
inductive Emits (job : SearchJob) (s : Search) : Phase → Search → Prop
  | unfinished (hrs : s.scan.results? = none) : Emits job s .scanning ⟨s.scan, .scanning⟩
  | scanFailed {rs : List (Except Failure MatchRanges)} {f : Failure}
      (hrs : s.scan.results? = some rs) (hc : collect rs = .error f) :
      Emits job s .scanning ⟨s.scan, .failing f⟩
  | scanned {rs : List (Except Failure MatchRanges)} {found : List MatchRanges}
      (hrs : s.scan.results? = some rs) (hc : collect rs = .ok found) :
      Emits job s .scanning ⟨s.scan, if job.ordered then .opening (job.files.zip found) else .ended⟩
  | allRead : Emits job s (.opening []) ⟨s.scan, .ended⟩
  | skipped {path : FilePath} {ranges : MatchRanges} {rest : List (FilePath × MatchRanges)}
      (hlast : ranges.lastLine? = none) :
      Emits job s (.opening ((path, ranges) :: rest)) ⟨s.scan, .opening rest⟩
  | unopened {path : FilePath} {ranges : MatchRanges} {rest : List (FilePath × MatchRanges)}
      {e : IoError} (hr : job.again.openFile path = .error e) :
      Emits job s (.opening ((path, ranges) :: rest)) ⟨s.scan, .failing (.read path e)⟩
  | opened {path : FilePath} {ranges : MatchRanges} {rest : List (FilePath × MatchRanges)}
      {last : Nat} {file : Opened} (hlast : ranges.lastLine? = some last)
      (hr : job.again.openFile path = .ok file) :
      Emits job s (.opening ((path, ranges) :: rest))
        ⟨s.scan, .reading path (.ofOpened file) ranges last rest⟩
  | exhausted {path : FilePath} {reader : LineReader} {ranges : MatchRanges} {last : Nat}
      {rest : List (FilePath × MatchRanges)} (hn : reader.next = .ok none) :
      Emits job s (.reading path reader ranges last rest) ⟨s.scan, .opening rest⟩
  | failed {path : FilePath} {reader : LineReader} {ranges : MatchRanges} {last : Nat}
      {rest : List (FilePath × MatchRanges)} {e : IoError} (hn : reader.next = .error e) :
      Emits job s (.reading path reader ranges last rest) ⟨s.scan, .failing (.read path e)⟩
  | interrupted {path : FilePath} {reader reader' : LineReader} {ranges : MatchRanges}
      {last : Nat} {rest : List (FilePath × MatchRanges)} {line : Nat × Bytes}
      (hn : reader.next = .ok (some (line, reader'))) (hs : s.scan.stopped = true) :
      Emits job s (.reading path reader ranges last rest) ⟨s.scan, .failing .cancelled⟩
  | passed {path : FilePath} {reader reader' : LineReader} {ranges : MatchRanges}
      {last : Nat} {rest : List (FilePath × MatchRanges)} {line : Nat × Bytes}
      (hn : reader.next = .ok (some (line, reader'))) (hgt : last < line.1) :
      Emits job s (.reading path reader ranges last rest) ⟨s.scan, .opening rest⟩
  | matched {path : FilePath} {reader reader' : LineReader} {ranges : MatchRanges}
      {last : Nat} {rest : List (FilePath × MatchRanges)} {line : Nat × Bytes} {record : Json.Value}
      (hn : reader.next = .ok (some (line, reader'))) (hc : ranges.contains line.1 = true)
      (hr : Record.ofLine? line.2 = some record) :
      Emits job s (.reading path reader ranges last rest)
        ⟨s.scan, .sending (Record.output job.plan line.2 record) path reader' ranges last rest⟩
  | unmatched {path : FilePath} {reader reader' : LineReader} {ranges : MatchRanges}
      {last : Nat} {rest : List (FilePath × MatchRanges)} {line : Nat × Bytes}
      (hn : reader.next = .ok (some (line, reader')))
      (hc : ranges.contains line.1 = false ∨ Record.ofLine? line.2 = none) :
      Emits job s (.reading path reader ranges last rest) ⟨s.scan, .reading path reader' ranges last rest⟩
  | sent {record : String} {path : FilePath} {reader : LineReader} {ranges : MatchRanges}
      {last : Nat} {rest : List (FilePath × MatchRanges)} {channel : Channel Item}
      (hc : s.scan.channel.send (.record record) = .accepted channel) :
      Emits job s (.sending record path reader ranges last rest)
        (s.setChannel channel (.reading path reader ranges last rest))
  | refused {record : String} {path : FilePath} {reader : LineReader} {ranges : MatchRanges}
      {last : Nat} {rest : List (FilePath × MatchRanges)}
      (hc : s.scan.channel.send (.record record) = .refused) :
      Emits job s (.sending record path reader ranges last rest) ⟨s.scan, .failing .cancelled⟩
  | failureSent {f : Failure} {channel : Channel Item}
      (hc : s.scan.channel.send (.failure f) = .accepted channel) :
      Emits job s (.failing f) (s.setChannel channel .ended)
  | failureRefused {f : Failure} (hc : s.scan.channel.send (.failure f) = .refused) :
      Emits job s (.failing f) ⟨s.scan, .ended⟩
  | blocked {phase : Phase} {item : Item} (hp : phase ≠ .ended)
      (hc : s.scan.channel.send item = .full) : Emits job s phase ⟨s.scan, phase⟩
  | settled : Emits job s .ended ⟨s.scan, .ended⟩

variable (job : SearchJob) (s : Search)

theorem afterScan_emits (hp : s.phase = .scanning) : Emits job s .scanning (s.afterScan job) := by
  unfold Search.afterScan
  cases hrs : s.scan.results? with
  | none =>
    obtain ⟨scan, phase⟩ := s
    cases hp
    exact .unfinished hrs
  | some rs =>
    cases hc : collect rs with
    | error f => simpa [hc] using Emits.scanFailed hrs hc
    | ok found => simpa [hc] using Emits.scanned hrs hc

theorem openNext_emits (rest : List (FilePath × MatchRanges)) :
    Emits job s (.opening rest) (s.openNext job rest) := by
  unfold Search.openNext
  match rest with
  | [] => exact .allRead
  | (path, ranges) :: rest =>
    cases hlast : ranges.lastLine? with
    | none => simpa [hlast] using Emits.skipped hlast
    | some last =>
      cases hr : job.again.openFile path with
      | error e => simpa [hlast, hr] using Emits.unopened hr
      | ok file => simpa [hlast, hr] using Emits.opened hlast hr

theorem readAgain_emits (path : FilePath) (reader : LineReader) (ranges : MatchRanges) (last : Nat)
    (rest : List (FilePath × MatchRanges)) : Emits job s (.reading path reader ranges last rest)
      (s.readAgain job path reader ranges last rest) := by
  unfold Search.readAgain
  match hn : reader.next with
  | .error e => exact .failed hn
  | .ok none => exact .exhausted hn
  | .ok (some ((number, line), reader')) =>
    cases hs : s.scan.stopped with
    | true => exact .interrupted hn hs
    | false =>
      by_cases hgt : number > last
      · simpa [hgt] using Emits.passed hn hgt
      · cases hc : ranges.contains number with
        | false => simpa [hgt, hc] using Emits.unmatched hn (.inl hc)
        | true =>
          cases hr : Record.ofLine? line with
          | none => simpa [hgt, hc, hr] using Emits.unmatched hn (.inr hr)
          | some record => simpa [hgt, hc, hr] using Emits.matched hn hc hr

theorem emit_emits : Emits job s s.phase (s.emit job) := by
  have hself {phase : Phase} (hp : s.phase = phase) : (⟨s.scan, phase⟩ : Search) = s := by rw [← hp]
  unfold Search.emit
  cases hp : s.phase with
  | scanning => exact afterScan_emits job s hp
  | opening rest => exact openNext_emits job s rest
  | reading path reader ranges last rest => exact readAgain_emits job s path reader ranges last rest
  | sending record path reader ranges last rest =>
    cases hc : s.scan.channel.send (.record record) with
    | accepted channel => simpa [hc] using Emits.sent hc
    | full =>
      have hb : Emits job s (.sending record path reader ranges last rest) _ := .blocked (by simp) hc
      rw [hself hp] at hb
      simpa [hc] using hb
    | refused => simpa [hc] using Emits.refused hc
  | failing f =>
    cases hc : s.scan.channel.send (.failure f) with
    | accepted channel => simpa [hc] using Emits.failureSent hc
    | full =>
      have hb : Emits job s (.failing f) _ := .blocked (by simp) hc
      rw [hself hp] at hb
      simpa [hc] using hb
    | refused => simpa [hc] using Emits.failureRefused hc
  | ended =>
    have ho : Emits job s .ended _ := .settled
    rwa [hself hp] at ho

end Emits

/-- The ranges noted in a file. -/
def SearchJob.ranges (job : SearchJob) (p : FilePath) : MatchRanges :=
  .ofLines (matching job.plan (linesIn job.fs p))

/-- Some files with the ranges noted in them. -/
def SearchJob.noted (job : SearchJob) (files : List FilePath) : List (FilePath × MatchRanges) :=
  files.map fun p => (p, job.ranges p)

/-- All records of a search. -/
def SearchJob.records (job : SearchJob) : List String := recordsIn job.fs job.plan job.files

/-- Records are sent in order, and every file can be read. -/
structure SearchJob.InOrder (job : SearchJob) : Prop where
  ordered : job.ordered = true
  readable : ∀ p ∈ job.files, Readable job.fs p

/-- Nothing is sent in order when a file cannot be read. -/
def SearchJob.Withholds (job : SearchJob) (records : List String) : Prop :=
  job.ordered = true → (∃ p ∈ job.files, ¬ Readable job.fs p) → records = []

/-- All records are there, and in order if order matters. -/
structure SearchJob.Complete (job : SearchJob) (items : List Item) : Prop where
  readable : ∀ p ∈ job.files, Readable job.fs p
  perm : items.Perm (job.records.map .record)
  ordered : job.ordered = true → items = job.records.map .record

/-- Every file holds the same bytes when it is read again. -/
structure Unchanged (fs again : FileSystem) : Prop where
  bytes : ∀ p, again.bytes? p = fs.bytes? p

theorem Unchanged.refl (fs : FileSystem) : Unchanged fs fs := ⟨fun _ => rfl⟩

/-- Where a search may stand after its scan, by what its channel carries. -/
inductive PhaseAt (job : SearchJob) (c : Channel Item) : Phase → Prop
  | opening {done files : List FilePath} {rest : List (FilePath × MatchRanges)} (ho : job.InOrder)
      (hf : job.files = done ++ files) (hrest : rest = job.noted files)
      (hi : c.items = (recordsIn job.fs job.plan done).map .record) : PhaseAt job c (.opening rest)
  | reading {done files : List FilePath} {path : FilePath} {before : List (Nat × Bytes)}
      {reader : LineReader} {last : Nat} {rest : List (FilePath × MatchRanges)} (ho : job.InOrder)
      (hf : job.files = done ++ path :: files) (hrest : rest = job.noted files)
      (hr : Reads job.again path before reader)
      (hlast : (job.ranges path).lastLine? = some last)
      (hi : c.items =
        (recordsIn job.fs job.plan done ++ recordsOn job.plan before).map .record) :
      PhaseAt job c (.reading path reader (job.ranges path) last rest)
  | sending {done files : List FilePath} {path : FilePath} {before : List (Nat × Bytes)}
      {line : Nat × Bytes} {record : String} {reader : LineReader} {last : Nat}
      {rest : List (FilePath × MatchRanges)} (ho : job.InOrder)
      (hf : job.files = done ++ path :: files) (hrest : rest = job.noted files)
      (hr : Reads job.again path (before ++ [line]) reader)
      (hlast : (job.ranges path).lastLine? = some last)
      (hrecord : recordsOn job.plan [line] = [record])
      (hi : c.items =
        (recordsIn job.fs job.plan done ++ recordsOn job.plan before).map .record) :
      PhaseAt job c (.sending record path reader (job.ranges path) last rest)
  | failing {f : Failure} {records : List String} (hw : job.Withholds records)
      (hi : c.items = records.map .record) : PhaseAt job c (.failing f)
  | complete (hc : job.Complete c.items) : PhaseAt job c .ended
  | failed {f : Failure} {records : List String} (hw : job.Withholds records)
      (hi : c.items = records.map .record ++ [.failure f]) : PhaseAt job c .ended
  | dropped {records : List String} (hw : job.Withholds records) (hc : c.closed = true)
      (hi : c.items = records.map .record) : PhaseAt job c .ended

variable {job : SearchJob} {s : Search} {c c' : Channel Item}

theorem SearchJob.InOrder.withholds (ho : job.InOrder) (records : List String) :
    job.Withholds records :=
  fun _ ⟨p, hp, hn⟩ => absurd (ho.readable p hp) hn

theorem recordsIn_concat (fs : FileSystem) (plan : Plan) (files : List FilePath) (p : FilePath) :
    recordsIn fs plan (files ++ [p]) = recordsIn fs plan files ++ recordsOn plan (linesIn fs p) := by
  simp [recordsIn]

theorem linesIn_ascending (fs : FileSystem) (p : FilePath) :
    ((linesIn fs p).map Prod.fst).Pairwise (· < ·) := by
  unfold linesIn
  split
  · exact LineReader.toList_ascending _
  · exact .nil

/-- What is read of an unchanged file are its first lines, and all of them if reading
does not fail. -/
theorem Unchanged.linesIn_isPrefix {fs again : FileSystem} {p : FilePath} (hu : Unchanged fs again)
    (hr : Readable fs p) : linesIn again p <+: linesIn fs p ∧
      (Readable again p → linesIn again p = linesIn fs p) := by
  obtain ⟨content, hread⟩ := hr
  have hbytes := FileSystem.bytes?_of_read hread
  rw [linesIn_of_ok hread]
  refine ⟨Engine.linesIn_isPrefix ((hu.bytes p).trans hbytes), fun ⟨content', hread'⟩ => ?_⟩
  have hsame := (FileSystem.bytes?_of_read hread').symm.trans ((hu.bytes p).trans hbytes)
  rw [linesIn_of_ok hread', Option.some.inj hsame]

/-- Where a search stands does not depend on what has been received. -/
theorem PhaseAt.congr {phase : Phase} (h : PhaseAt job c phase) (hi : c'.items = c.items)
    (hc : c.closed = true → c'.closed = true) : PhaseAt job c' phase := by
  cases h with
  | opening ho hf hrest h => exact .opening ho hf hrest (hi.trans h)
  | reading ho hf hrest hr hlast h => exact .reading ho hf hrest hr hlast (hi.trans h)
  | sending ho hf hrest hr hlast hrec h => exact .sending ho hf hrest hr hlast hrec (hi.trans h)
  | failing hw h => exact .failing hw (hi.trans h)
  | complete h => exact .complete (hi ▸ h)
  | failed hw h => exact .failed hw (hi.trans h)
  | dropped hw h h' => exact .dropped hw (hc h) (hi.trans h')

/-- The next file is opened once the records of one are all sent. -/
theorem PhaseAt.leave {done files : List FilePath} {path : FilePath}
    {rest : List (FilePath × MatchRanges)} (ho : job.InOrder)
    (hf : job.files = done ++ path :: files) (hrest : rest = job.noted files)
    (hi : c.items =
      (recordsIn job.fs job.plan done ++ recordsOn job.plan (linesIn job.fs path)).map .record) :
    PhaseAt job c (.opening rest) := by
  rw [List.append_cons] at hf
  rw [← recordsIn_concat] at hi
  exact .opening ho hf hrest hi

theorem recordsOn_singleton (plan : Plan) (l : Nat × Bytes) :
    recordsOn plan [l] = ((plan.matchLine? l.2).map (Record.output plan l.2)).toList := by
  cases h : plan.matchLine? l.2 <;> simp [recordsOn, h]

/-- On a noted line the record is sent, and on no other. -/
theorem recordsOn_noted {path : FilePath} {l : Nat × Bytes} (hl : l ∈ linesIn job.fs path) :
    recordsOn job.plan [l] =
      if (job.ranges path).contains l.1 then
        ((Record.ofLine? l.2).map (Record.output job.plan l.2)).toList
      else [] := by
  have hc : (job.ranges path).contains l.1 = job.plan.matchesLine l.2 :=
    contains_noted (linesIn_ascending job.fs path) hl
  rw [hc, recordsOn_singleton, Plan.matchesLine, Plan.matchLine?]
  cases Record.ofLine? l.2 with
  | none => simp
  | some record => cases h : job.plan.accepts record <;> simp [Option.filter, h]

/-- A step before a file is opened, opens it or leaves it out. -/
theorem PhaseAt.emits_opening {done files : List FilePath} {rest : List (FilePath × MatchRanges)}
    {s' : Search} (ho : job.InOrder) (hf : job.files = done ++ files)
    (hrest : rest = job.noted files)
    (hi : s.scan.channel.items = (recordsIn job.fs job.plan done).map .record)
    (he : Emits job s (.opening rest) s') :
    PhaseAt job s'.scan.channel s'.phase ∧ s'.scan.tasks = s.scan.tasks := by
  cases he with
  | allRead =>
    rw [List.map_eq_nil_iff.mp hrest.symm, List.append_nil] at hf
    subst hf
    exact ⟨.complete ⟨ho.readable, .of_eq hi, fun _ => hi⟩, rfl⟩
  | skipped hlast =>
    obtain ⟨path, files, rfl, hpath, hnoted⟩ := List.map_eq_cons_iff.mp hrest.symm
    cases hpath
    refine ⟨.leave ho hf hnoted.symm ?_, rfl⟩
    rw [recordsOn_of_no_last hlast, List.append_nil]
    exact hi
  | unopened hr =>
    obtain ⟨path, files, rfl, hpath, hnoted⟩ := List.map_eq_cons_iff.mp hrest.symm
    exact ⟨.failing (ho.withholds _) hi, rfl⟩
  | opened hlast hr =>
    obtain ⟨path, files, rfl, hpath, hnoted⟩ := List.map_eq_cons_iff.mp hrest.symm
    cases hpath
    refine ⟨.reading ho hf hnoted.symm (.ofOpened hr) hlast ?_, rfl⟩
    rw [recordsOn, List.filterMap_nil, List.append_nil]
    exact hi
  | blocked => exact ⟨.opening ho hf hrest hi, rfl⟩

/-- A step in a file goes on to its next line, or leaves it. -/
theorem PhaseAt.emits_reading {done files : List FilePath} {path : FilePath}
    {before : List (Nat × Bytes)} {reader : LineReader} {last : Nat}
    {rest : List (FilePath × MatchRanges)} {s' : Search} (hu : Unchanged job.fs job.again)
    (ho : job.InOrder) (hf : job.files = done ++ path :: files) (hrest : rest = job.noted files)
    (hr : Reads job.again path before reader)
    (hlast : (job.ranges path).lastLine? = some last)
    (hi : s.scan.channel.items =
      (recordsIn job.fs job.plan done ++ recordsOn job.plan before).map .record)
    (he : Emits job s (.reading path reader (job.ranges path) last rest) s') :
    PhaseAt job s'.scan.channel s'.phase ∧ s'.scan.tasks = s.scan.tasks := by
  obtain ⟨hfirst, hall⟩ := hu.linesIn_isPrefix (ho.readable path (by rw [hf]; simp))
  cases he with
  | exhausted hn =>
    obtain ⟨hread, hl⟩ := hr.atEnd hn
    rw [hall hread] at hl
    exact ⟨.leave ho hf hrest (hl ▸ hi), rfl⟩
  | failed hn => exact ⟨.failing (ho.withholds _) hi, rfl⟩
  | interrupted hn hs => exact ⟨.failing (ho.withholds _) hi, rfl⟩
  | passed hn hgt =>
    obtain ⟨after, hl⟩ := hfirst
    rw [hr.lines, LineReader.toList_of_next_some hn, List.append_assoc, List.cons_append] at hl
    refine ⟨.leave ho hf hrest ?_, rfl⟩
    rw [← hl, recordsOn_append,
      recordsOn_after_last (linesIn_ascending job.fs _) hl.symm hlast hgt, List.append_nil]
    exact hi
  | @matched _ _ _ _ _ _ line _ hn hc hrec =>
    have hnext := hr.next hn
    have hrecord : recordsOn job.plan [line] = _ :=
      recordsOn_noted (hfirst.subset (by rw [hnext.lines]; simp))
    rw [hc, hrec] at hrecord
    exact ⟨.sending ho hf hrest hnext hlast hrecord hi, rfl⟩
  | @unmatched _ _ _ _ _ _ line hn hc =>
    have hnext := hr.next hn
    have hnone : recordsOn job.plan [line] = _ :=
      recordsOn_noted (hfirst.subset (by rw [hnext.lines]; simp))
    refine ⟨.reading ho hf hrest hnext hlast ?_, rfl⟩
    rw [recordsOn_append, hnone]
    rcases hc with hc | hc <;> simpa [hc] using hi
  | blocked => exact ⟨.reading ho hf hrest hr hlast hi, rfl⟩

/-- A step after the scan sends the next record, or none. -/
theorem PhaseAt.emits {phase : Phase} {s' : Search} (hu : Unchanged job.fs job.again)
    (h : PhaseAt job s.scan.channel phase) (he : Emits job s phase s') :
    PhaseAt job s'.scan.channel s'.phase ∧ s'.scan.tasks = s.scan.tasks := by
  cases h with
  | opening ho hf hrest hi => exact emits_opening ho hf hrest hi he
  | reading ho hf hrest hr hlast hi => exact emits_reading hu ho hf hrest hr hlast hi he
  | sending ho hf hrest hr hlast hrec hi =>
    cases he with
    | sent hc =>
      refine ⟨.reading ho hf hrest hr hlast ?_, rfl⟩
      have hitems := (Channel.send_accepted hc).items
      rw [hi] at hitems
      rw [recordsOn_append, hrec, ← List.append_assoc, List.map_append]
      exact hitems
    | refused hc => exact ⟨.failing (ho.withholds _) hi, rfl⟩
    | blocked => exact ⟨.sending ho hf hrest hr hlast hrec hi, rfl⟩
  | failing hw hi =>
    cases he with
    | failureSent hc =>
      have hitems := (Channel.send_accepted hc).items
      rw [hi] at hitems
      exact ⟨.failed hw hitems, rfl⟩
    | failureRefused hc => exact ⟨.dropped hw (Channel.send_refused hc) hi, rfl⟩
    | blocked => exact ⟨.failing hw hi, rfl⟩
  | complete hc =>
    cases he with
    | settled => exact ⟨.complete hc, rfl⟩
    | blocked hp => exact absurd rfl hp
  | failed hw hi =>
    cases he with
    | settled => exact ⟨.failed hw hi, rfl⟩
    | blocked hp => exact absurd rfl hp
  | dropped hw hc hi =>
    cases he with
    | settled => exact ⟨.dropped hw hc hi, rfl⟩
    | blocked hp => exact absurd rfl hp

/-- A scan whose tasks all have their results goes on no more. -/
theorem advance_of_results {α : Type} {fs : FileSystem} {visitor : Visitor α}
    {files : List FilePath} {scan : Scan α} {rs : List (Except Failure α)}
    (hrs : scan.results? = some rs) (i : Nat) : scan.advance fs visitor files i = scan := by
  cases ht : scan.tasks[i]? with
  | none => exact advance_of_none ht
  | some t =>
    obtain ⟨r, -, rfl⟩ : ∃ r, rs[i]? = some r ∧ .finished r = t := by
      rwa [results?_eq_some.mp hrs, List.getElem?_map, Option.map_eq_some_iff] at ht
    unfold Scan.advance
    rw [ht]

/-- What holds of a search after any events. -/
inductive Sound (job : SearchJob) : Search → Prop
  | scanning {scan : Scan MatchRanges} {sent : Nat → List String}
      (hf : Faithful job.fs job.visitor job.files scan sent) (hc : Carries job.files scan sent) :
      Sound job ⟨scan, .scanning⟩
  | emitting {scan : Scan MatchRanges} {sent : Nat → List String} {phase : Phase}
      {rs : List (Except Failure MatchRanges)}
      (hf : Faithful job.fs job.visitor job.files scan sent) (hrs : scan.results? = some rs)
      (hp : PhaseAt job scan.channel phase) : Sound job ⟨scan, phase⟩

/-- The scan of an ordered search sends nothing. -/
theorem sent_eq_nil {scan : Scan MatchRanges} {sent : Nat → List String}
    (hf : Faithful job.fs job.visitor job.files scan sent) (ho : job.ordered = true) :
    (List.range job.files.length).flatMap sent = [] := by
  refine List.flatMap_eq_nil_iff.mpr fun i hi => ?_
  have hi := List.mem_range.mp hi
  have hat := hf.task (List.getElem?_eq_getElem hi)
    (List.getElem?_eq_getElem (hf.length ▸ hi : i < scan.tasks.length))
  have hsent := hat.sent_isPrefix
  rw [SearchJob.visitor, if_pos ho, records_noting] at hsent
  exact List.prefix_nil.mp hsent

theorem records_of_perm {items : List Item} {records : List String}
    (h : items.Perm (records.map .record)) : ∃ records' : List String, items = records'.map .record := by
  have hmem : items ∈ Set.range (List.map Item.record) := by
    rw [Set.range_list_map]
    intro item hitem
    obtain ⟨record, -, rfl⟩ := List.mem_map.mp (h.mem_iff.mp hitem)
    exact ⟨record, rfl⟩
  obtain ⟨records', hr⟩ := hmem
  exact ⟨records', hr.symm⟩

/-- An ordered search has sent nothing before its scan is over. -/
theorem Carries.silent {scan : Scan MatchRanges} {sent : Nat → List String}
    (hc : Carries job.files scan sent) (hf : Faithful job.fs job.visitor job.files scan sent)
    (ho : job.ordered = true) : scan.channel.items = [] := by
  rw [Carries, sent_eq_nil hf ho, List.map_nil] at hc
  exact hc.eq_nil

/-- What follows when the scan is over. -/
theorem Sound.afterScan {scan : Scan MatchRanges} {sent : Nat → List String} {s' : Search}
    (hf : Faithful job.fs job.visitor job.files scan sent) (hc : Carries job.files scan sent)
    (he : Emits job ⟨scan, .scanning⟩ .scanning s') : Sound job s' := by
  cases he with
  | unfinished | blocked => exact .scanning hf hc
  | scanFailed hrs he =>
    obtain ⟨records, hr⟩ := records_of_perm hc
    refine .emitting hf hrs (.failing (fun ho _ => ?_) hr)
    exact List.map_eq_nil_iff.mp (hr.symm.trans (hc.silent hf ho))
  | @scanned _ found hrs he =>
    obtain ⟨hread, hfound, hsent⟩ := hf.of_ok hrs he
    refine .emitting hf hrs ?_
    cases ho : job.ordered with
    | true =>
      have hranges : ∀ p, job.visitor.found (linesIn job.fs p) = job.ranges p := by
        intro p
        rw [SearchJob.visitor, if_pos ho, found_noting]
        rfl
      have hnoted : job.files.zip found = job.noted job.files := by
        rw [hfound, SearchJob.noted, List.map_prod_left_eq_zip]
        simp only [hranges]
      exact .opening ⟨ho, hread⟩ (List.nil_append _).symm hnoted (hc.silent hf ho)
    | false =>
      refine .complete ⟨hread, ?_, by simp [ho]⟩
      rw [Carries, hsent, SearchJob.visitor, ho] at hc
      exact hc

theorem sound_start (permits buffer : Capacity) (cancelled : Bool) :
    Sound job (.start job permits cancelled buffer) :=
  .scanning (faithful_start permits cancelled buffer) (carries_start permits cancelled buffer)

/-- When a scan is over, events outside it change neither its results nor what
has been sent. -/
theorem step_of_results {α : Type} {fs : FileSystem} {visitor : Visitor α}
    {files : List FilePath} {scan : Scan α} {rs : List (Except Failure α)}
    (hrs : scan.results? = some rs) (e : ScanEvent) :
    (scan.step fs visitor files e).tasks = scan.tasks ∧
      (scan.step fs visitor files e).channel.items = scan.channel.items ∧
      (scan.stopped = true → (scan.step fs visitor files e).stopped = true) ∧
      (scan.channel.closed = true → (scan.step fs visitor files e).channel.closed = true) := by
  cases e with
  | advance i =>
    rw [Scan.step, advance_of_results hrs i]
    exact ⟨rfl, rfl, id, id⟩
  | cancel => exact ⟨rfl, rfl, fun _ => rfl, id⟩
  | receive => exact ⟨rfl, Channel.receive_items _, id, (Channel.receive_closed _).trans⟩
  | close => exact ⟨rfl, rfl, fun _ => rfl, fun _ => rfl⟩

theorem results?_congr {α : Type} {scan scan' : Scan α} (h : scan'.tasks = scan.tasks) :
    scan'.results? = scan.results? := by
  rw [Scan.results?, Scan.results?, h]

/-- A step after the scan leaves the scan as it is, but for the channel. -/
theorem Emits.stopped {phase : Phase} {s' : Search} (he : Emits job s phase s') :
    s'.scan.stopped = s.scan.stopped := by
  cases he <;> rfl

theorem Sound.step (hu : Unchanged job.fs job.again) (h : Sound job s) (e : SearchEvent) :
    Sound job (s.step job e) := by
  cases e with
  | scan e =>
    cases h with
    | scanning hf hc =>
      obtain ⟨sent', hf', hc'⟩ := hf.step hc e
      exact .scanning hf' hc'
    | emitting hf hrs hp =>
      obtain ⟨htasks, hitems, hstop, hclosed⟩ := step_of_results hrs e
      exact .emitting (hf.congr htasks hstop) ((results?_congr htasks).trans hrs)
        (hp.congr hitems hclosed)
  | emit =>
    have he := emit_emits job s
    change Sound job (s.emit job)
    generalize s.emit job = s' at he ⊢
    cases h with
    | scanning hf hc => exact .afterScan hf hc he
    | emitting hf hrs hp =>
      obtain ⟨hp', htasks⟩ := hp.emits hu he
      have hstop := he.stopped
      exact .emitting (hf.congr htasks fun h => hstop.trans h) ((results?_congr htasks).trans hrs) hp'

theorem Sound.run (hu : Unchanged job.fs job.again) (h : Sound job s) (events : List SearchEvent) :
    Sound job (s.run job events) :=
  List.foldlRecOn events _ h fun _ hs e _ => hs.step hu e

theorem Sound.faithful (h : Sound job s) :
    ∃ sent, Faithful job.fs job.visitor job.files s.scan sent := by
  cases h with
  | scanning hf | emitting hf => exact ⟨_, hf⟩

theorem Sound.phaseAt (h : Sound job s) (hp : s.phase ≠ .scanning) :
    PhaseAt job s.scan.channel s.phase := by
  cases h with
  | scanning => exact absurd rfl hp
  | emitting hf hrs hat => exact hat

end LogQuery.Engine
