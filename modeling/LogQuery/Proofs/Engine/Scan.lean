import Mathlib.Data.List.Basic
import Mathlib.Logic.Function.Basic
import LogQuery.Engine.Scan
import LogQuery.Proofs.Log.Numbering

/-!
# What the tasks of a scan find

Tasks advance in any order, and the query may be cancelled at any time. `Moves`
lists all that one step of a task can do. Whatever the order, a task that ends
well has seen every line of its file once, and a scan that ends well has seen
every file.
-/

namespace LogQuery.Engine

open LogQuery.Text LogQuery.Store LogQuery.Log

variable {α : Type}

def Readable (fs : FileSystem) (p : FilePath) : Prop := ∃ content, fs.read p = .ok content

/-- The lines of a file that can be read, with their numbers; none if it does not open. -/
def linesIn (fs : FileSystem) (p : FilePath) : List (Nat × Bytes) :=
  match fs.openFile p with
  | .ok file => (LineReader.ofOpened file).toList
  | .error _ => []

section Reads

variable {fs : FileSystem} {p : FilePath} {content : Bytes} {file : Opened} {e : IoError}
  {before : List (Nat × Bytes)} {line : Nat × Bytes} {reader reader' : LineReader}

theorem linesIn_of_openFile (h : fs.openFile p = .ok file) :
    linesIn fs p = (LineReader.ofOpened file).toList := by
  rw [linesIn, h]

theorem linesIn_of_ok (h : fs.read p = .ok content) : linesIn fs p = numberedLines content :=
  linesIn_of_openFile (FileSystem.read_eq_ok.mp h)

theorem linesIn_of_not_opened (h : fs.openFile p = .error e) : linesIn fs p = [] := by
  rw [linesIn, h]

/-- The lines that can be read are the first ones of the file. -/
theorem linesIn_isPrefix (h : fs.bytes? p = some content) : linesIn fs p <+: numberedLines content := by
  unfold FileSystem.bytes? at h
  split at h
  next stored hnode =>
    cases h
    unfold linesIn FileSystem.openFile Content.opened
    rw [hnode]
    obtain ⟨bytes, fault⟩ := stored
    cases fault with
    | none => exact List.prefix_refl _
    | some fault =>
      cases fault with
      | opening e => exact List.nil_prefix
      | reading after e => exact LineReader.toList_isPrefix (List.take_prefix after bytes) 0 e
  next => cases h

/-- A line that can be read is one of a file. -/
theorem exists_bytes_of_mem_linesIn (hl : line ∈ linesIn fs p) :
    ∃ content, fs.bytes? p = some content ∧ line ∈ numberedLines content := by
  cases hnode : fs.node p with
  | error e => simp [linesIn, FileSystem.openFile, hnode] at hl
  | ok node =>
    cases node with
    | directory es =>
      rw [linesIn, FileSystem.openFile, hnode] at hl
      cases hl
    | file stored =>
      have hbytes : fs.bytes? p = some stored.bytes := by rw [FileSystem.bytes?, hnode]
      exact ⟨_, hbytes, (linesIn_isPrefix hbytes).subset hl⟩

theorem not_readable_iff : ¬ Readable fs p ↔ ∃ e, fs.read p = .error e := by
  cases h : fs.read p <;> simp [Readable, h]

/-- A reader of a file, and the lines that it has passed. -/
structure Reads (fs : FileSystem) (p : FilePath) (before : List (Nat × Bytes))
    (reader : LineReader) : Prop where
  opened : ∃ file, fs.openFile p = .ok file ∧ reader.failure = file.failure
  lines : linesIn fs p = before ++ reader.toList

namespace Reads

theorem ofOpened (h : fs.openFile p = .ok file) : Reads fs p [] (.ofOpened file) :=
  ⟨⟨file, h, rfl⟩, linesIn_of_openFile h⟩

theorem next (h : Reads fs p before reader) (hn : reader.next = .ok (some (line, reader'))) :
    Reads fs p (before ++ [line]) reader' := by
  obtain ⟨file, hopen, hf⟩ := h.opened
  refine ⟨⟨file, hopen, (LineReader.next_eq_some hn).2.2.1.trans hf⟩, ?_⟩
  rw [h.lines, LineReader.toList_of_next_some hn, List.append_cons]

theorem atEnd (h : Reads fs p before reader) (hn : reader.next = .ok none) :
    Readable fs p ∧ linesIn fs p = before := by
  obtain ⟨file, hopen, hf⟩ := h.opened
  obtain ⟨bytes, failure⟩ := file
  obtain rfl : none = failure := (LineReader.next_eq_none.mp hn).1.symm.trans hf
  exact ⟨⟨bytes, FileSystem.read_eq_ok.mpr hopen⟩,
    by rw [h.lines, LineReader.toList_of_next_none hn, List.append_nil]⟩

theorem failed (h : Reads fs p before reader) (hn : reader.next = .error e) :
    fs.read p = .error e ∧ linesIn fs p = before := by
  obtain ⟨file, hopen, hf⟩ := h.opened
  have hfile : file.failure = some e := hf.symm.trans (LineReader.failure_of_next_error hn)
  exact ⟨FileSystem.read_of_failure hopen hfile,
    by rw [h.lines, LineReader.toList_of_next_error hn, List.append_nil]⟩

end Reads

end Reads

namespace Visitor

variable (v : Visitor α)

/-- What some lines make a visitor find. -/
def found (lines : List (Nat × Bytes)) : α := lines.foldl v.visit v.start

/-- The records a visitor sends on for some lines. -/
def records (lines : List (Nat × Bytes)) : List String := lines.filterMap fun l => v.record? l.2

theorem found_concat (lines : List (Nat × Bytes)) (l : Nat × Bytes) :
    v.found (lines ++ [l]) = v.visit (v.found lines) l := by
  simp [found]

theorem records_concat (lines : List (Nat × Bytes)) (l : Nat × Bytes) :
    v.records (lines ++ [l]) = v.records lines ++ (v.record? l.2).toList := by
  cases h : v.record? l.2 <;> simp [records, h]

end Visitor

section Moves

variable (fs : FileSystem) (visitor : Visitor α)

/-- What a step of task `i` makes of a scan, by where the task stands. The first
three cases are those of a task that cannot go on. -/
inductive Moves (path : FilePath) (s : Scan α) (i : Nat) : Task α → Scan α → Prop
  | settled {result : Except Failure α} : Moves path s i (.finished result) s
  | starved (hs : s.stopped = false) (hp : s.permits = 0) : Moves path s i .waiting s
  | blocked {reader : LineReader} {found : α} {record : String}
      (hc : s.channel.send (.record record) = .full) :
      Moves path s i (.sending reader found record) s
  | turnedAway (hs : s.stopped = true) :
      Moves path s i .waiting (s.setTask i (.finished (.error .cancelled)))
  | granted (hs : s.stopped = false) (hp : s.permits ≠ 0) :
      Moves path s i .waiting { s.setTask i .opening with permits := s.permits - 1 }
  | opened {file : Opened} (hr : fs.openFile path = .ok file) :
      Moves path s i .opening (s.setTask i (.reading (.ofOpened file) visitor.start))
  | unopened {e : IoError} (hr : fs.openFile path = .error e) :
      Moves path s i .opening (s.finish i (.error (.read path e)))
  | exhausted {reader : LineReader} {found : α} (hn : reader.next = .ok none) :
      Moves path s i (.reading reader found) (s.finish i (.ok found))
  | failed {reader : LineReader} {found : α} {e : IoError} (hn : reader.next = .error e) :
      Moves path s i (.reading reader found) (s.finish i (.error (.read path e)))
  | interrupted {reader rest : LineReader} {found : α} {line : Nat × Bytes}
      (hn : reader.next = .ok (some (line, rest))) (hs : s.stopped = true) :
      Moves path s i (.reading reader found) (s.finish i (.error .cancelled))
  | visited {reader rest : LineReader} {found : α} {line : Nat × Bytes}
      (hn : reader.next = .ok (some (line, rest))) (hs : s.stopped = false)
      (hv : visitor.record? line.2 = none) :
      Moves path s i (.reading reader found)
        (s.setTask i (.reading rest (visitor.visit found line)))
  | matched {reader rest : LineReader} {found : α} {line : Nat × Bytes} {record : String}
      (hn : reader.next = .ok (some (line, rest))) (hs : s.stopped = false)
      (hv : visitor.record? line.2 = some record) :
      Moves path s i (.reading reader found)
        (s.setTask i (.sending rest (visitor.visit found line) record))
  | sent {reader : LineReader} {found : α} {record : String} {channel : Channel Item}
      (hc : s.channel.send (.record record) = .accepted channel) :
      Moves path s i (.sending reader found record)
        { s.setTask i (.reading reader found) with channel := channel }
  | undelivered {reader : LineReader} {found : α} {record : String}
      (hc : s.channel.send (.record record) = .refused) :
      Moves path s i (.sending reader found record) (s.finish i (.error .cancelled))

variable {fs visitor}

theorem advance_moves {files : List FilePath} {s : Scan α} {i : Nat} {path : FilePath}
    {t : Task α} (hp : files[i]? = some path) (ht : s.tasks[i]? = some t) :
    Moves fs visitor path s i t (s.advance fs visitor files i) := by
  unfold Scan.advance
  rw [hp, ht]
  cases t with
  | waiting =>
    simp only [Scan.grant]
    cases hs : s.stopped with
    | true => exact .turnedAway hs
    | false =>
      by_cases h0 : s.permits = 0
      · simpa [h0] using Moves.starved hs h0
      · simpa [h0] using Moves.granted hs h0
  | opening =>
    cases hr : fs.openFile path with
    | ok file => simpa [hr] using Moves.opened hr
    | error e => simpa [hr] using Moves.unopened hr
  | reading reader found =>
    simp only [Scan.readLine]
    match hn : reader.next with
    | .error e => exact .failed hn
    | .ok none => exact .exhausted hn
    | .ok (some (line, rest)) =>
      cases hs : s.stopped with
      | true => exact .interrupted hn hs
      | false =>
        cases hv : visitor.record? line.2 with
        | none => simpa [hv] using Moves.visited hn hs hv
        | some record => simpa [hv] using Moves.matched hn hs hv
  | sending reader found record =>
    simp only [Scan.sendRecord]
    cases hc : s.channel.send (.record record) with
    | accepted channel => exact .sent hc
    | full => exact .blocked hc
    | refused => exact .undelivered hc
  | finished result => exact .settled

theorem advance_of_none {files : List FilePath} {s : Scan α} {i : Nat}
    (h : s.tasks[i]? = none) : s.advance fs visitor files i = s := by
  unfold Scan.advance
  rw [h]

end Moves

section Faithful

variable (fs : FileSystem) (visitor : Visitor α)

/-- Where a task on a file may stand, and the records it has sent by then. A task that
fails has sent those on the lines that it could read, and one that is cancelled only the
first ones of them. -/
inductive TaskAt (path : FilePath) : Task α → List String → Prop
  | waiting : TaskAt path .waiting []
  | opening : TaskAt path .opening []
  | reading {before : List (Nat × Bytes)} {reader : LineReader} (hr : Reads fs path before reader) :
      TaskAt path (.reading reader (visitor.found before)) (visitor.records before)
  | sending {before : List (Nat × Bytes)} {line : Nat × Bytes} {reader : LineReader}
      {record : String} (hr : Reads fs path (before ++ [line]) reader)
      (hv : visitor.record? line.2 = some record) :
      TaskAt path (.sending reader (visitor.found (before ++ [line])) record)
        (visitor.records before)
  | settled (hr : Readable fs path) :
      TaskAt path (.finished (.ok (visitor.found (linesIn fs path))))
        (visitor.records (linesIn fs path))
  | unreadable {e : IoError} (hr : fs.read path = .error e) :
      TaskAt path (.finished (.error (.read path e))) (visitor.records (linesIn fs path))
  | cancelled {records : List String} (hr : records <+: visitor.records (linesIn fs path)) :
      TaskAt path (.finished (.error .cancelled)) records

variable {fs visitor} {files : List FilePath} {s s' : Scan α}

theorem TaskAt.opened {path : FilePath} {file : Opened} (hr : fs.openFile path = .ok file) :
    TaskAt fs visitor path (.reading (.ofOpened file) visitor.start) [] := by
  change TaskAt fs visitor path (.reading _ (visitor.found [])) (visitor.records [])
  exact .reading (.ofOpened hr)

theorem TaskAt.unopened {path : FilePath} {e : IoError} (hr : fs.openFile path = .error e) :
    TaskAt fs visitor path (.finished (.error (.read path e))) [] := by
  have hat : TaskAt fs visitor path _ _ := .unreadable (FileSystem.read_of_not_opened hr)
  rwa [linesIn_of_not_opened hr] at hat

/-- No task sends anything but its records in their order. -/
theorem TaskAt.sent_isPrefix {path : FilePath} {t : Task α} {records : List String}
    (h : TaskAt fs visitor path t records) : records <+: visitor.records (linesIn fs path) := by
  cases h with
  | waiting | opening => exact List.nil_prefix
  | reading hr =>
    rw [hr.lines, Visitor.records, Visitor.records, List.filterMap_append]
    exact List.prefix_append ..
  | sending hr hv =>
    rw [hr.lines, List.append_assoc, Visitor.records, Visitor.records, List.filterMap_append]
    exact List.prefix_append ..
  | settled | unreadable => exact List.prefix_refl _
  | cancelled hr => exact hr

/-- A step puts one task on, which may send a record. -/
theorem Moves.taskAt {path : FilePath} {i : Nat} {t : Task α} {records : List String}
    (hm : Moves fs visitor path s i t s') (ht : s.tasks[i]? = some t)
    (hat : TaskAt fs visitor path t records)
    (hf : ∀ f, t = .finished (.error f) → s.stopped = true) :
    ∃ t' new, s'.tasks = s.tasks.set i t' ∧ TaskAt fs visitor path t' (records ++ new) ∧
      s'.channel.items = s.channel.items ++ new.map .record ∧
      (s.stopped = true → s'.stopped = true) ∧
      ∀ f, t' = .finished (.error f) → s'.stopped = true := by
  cases hm with
  | settled | starved | blocked =>
    obtain ⟨hi, he⟩ := List.getElem?_eq_some_iff.mp ht
    have hself := List.set_getElem_self hi
    rw [he] at hself
    exact ⟨_, [], hself.symm, by simpa using hat, by simp, id, hf⟩
  | turnedAway hs =>
    cases hat
    exact ⟨_, [], rfl, .cancelled List.nil_prefix, by simp, id, fun _ _ => hs⟩
  | granted =>
    cases hat
    exact ⟨_, [], rfl, .opening, by simp, id, by simp⟩
  | opened hr =>
    cases hat
    exact ⟨_, [], rfl, .opened hr, by simp, id, by simp⟩
  | unopened hr =>
    cases hat
    exact ⟨_, [], rfl, .unopened hr, by simp, by simp, by simp⟩
  | exhausted hn =>
    cases hat with
    | reading hr =>
      obtain ⟨hread, hl⟩ := hr.atEnd hn
      refine ⟨_, [], rfl, ?_, by simp, by simp, by simp⟩
      rw [List.append_nil, ← hl]
      exact .settled hread
  | failed hn =>
    cases hat with
    | reading hr =>
      obtain ⟨hread, hl⟩ := hr.failed hn
      refine ⟨_, [], rfl, ?_, by simp, by simp, by simp⟩
      rw [List.append_nil, ← hl]
      exact .unreadable hread
  | interrupted =>
    exact ⟨_, [], rfl, .cancelled (by simpa using hat.sent_isPrefix), by simp, by simp, by simp⟩
  | visited hn hs hv =>
    cases hat with
    | reading hr =>
      refine ⟨_, [], rfl, ?_, by simp, id, by simp⟩
      have hat' : TaskAt fs visitor path (.reading _ _) _ := .reading (hr.next hn)
      rwa [Visitor.found_concat, Visitor.records_concat, hv] at hat'
  | matched hn hs hv =>
    cases hat with
    | reading hr =>
      refine ⟨_, [], rfl, ?_, by simp, id, by simp⟩
      have hat' := TaskAt.sending (hr.next hn) hv
      rwa [Visitor.found_concat, ← List.append_nil (visitor.records _)] at hat'
  | sent hc =>
    cases hat with
    | sending hr hv =>
      refine ⟨_, [_], rfl, ?_, (Channel.send_accepted hc).items, id, by simp⟩
      have hat' : TaskAt fs visitor path (.reading _ _) _ := .reading hr
      rwa [Visitor.records_concat, hv] at hat'
  | undelivered =>
    exact ⟨_, [], rfl, .cancelled (by simpa using hat.sent_isPrefix), by simp, by simp, by simp⟩

/-- Every task stands where it may stand, and a failed one has stopped the scan. -/
structure Faithful (fs : FileSystem) (visitor : Visitor α) (files : List FilePath) (s : Scan α)
    (sent : Nat → List String) : Prop where
  length : s.tasks.length = files.length
  task : ∀ {i : Nat} {path : FilePath} {t : Task α}, files[i]? = some path →
    s.tasks[i]? = some t → TaskAt fs visitor path t (sent i)
  failed : ∀ {i : Nat} {f : Failure},
    s.tasks[i]? = some (.finished (.error f)) → s.stopped = true

/-- The channel carries what the tasks have sent, in some order. -/
def Carries (files : List FilePath) (s : Scan α) (sent : Nat → List String) : Prop :=
  s.channel.items.Perm (((List.range files.length).flatMap sent).map Item.record)

theorem faithful_start (n : Capacity) (cancelled : Bool) (buffer : Capacity) :
    Faithful fs visitor files (.start files.length n cancelled buffer) fun _ => [] where
  length := by simp [Scan.start]
  task := by
    intro i path t _ ht
    rw [List.eq_of_mem_replicate (List.mem_of_getElem? ht)]
    exact .waiting
  failed := by
    intro i f ht
    cases List.eq_of_mem_replicate (List.mem_of_getElem? ht)

theorem carries_start (n : Capacity) (cancelled : Bool) (buffer : Capacity) :
    Carries files (.start files.length n cancelled buffer : Scan α) fun _ => [] := by
  simp [Carries, Scan.start, Channel.ofCapacity, Channel.items]

theorem flatMap_range_update {β : Type} (sent : Nat → List β) {i n : Nat} (hi : i < n)
    (new : List β) :
    ((List.range n).flatMap (Function.update sent i (sent i ++ new))).Perm
      ((List.range n).flatMap sent ++ new) := by
  induction n with
  | zero => omega
  | succ n ih =>
    simp only [List.range_succ, List.flatMap_append, List.flatMap_singleton]
    by_cases hn : i = n
    · subst hn
      have hsame : (List.range i).flatMap (Function.update sent i (sent i ++ new)) =
          (List.range i).flatMap sent :=
        List.flatMap_congr fun j hj =>
          Function.update_of_ne (Nat.ne_of_lt (List.mem_range.mp hj)) ..
      rw [Function.update_self, hsame, List.append_assoc]
    · rw [Function.update_of_ne (Ne.symm hn), List.append_assoc]
      refine ((ih (by omega)).append_right _).trans ?_
      rw [List.append_assoc]
      exact List.perm_append_comm.append_left _

theorem flatMap_range_length {β γ : Type} {xs : List γ} {f : γ → List β} {sent : Nat → List β}
    (h : ∀ i (hi : i < xs.length), sent i = f xs[i]) :
    (List.range xs.length).flatMap sent = xs.flatMap f := by
  induction xs generalizing sent with
  | nil => rfl
  | cons x xs ih =>
    rw [List.length_cons, List.range_succ_eq_map, List.flatMap_cons, List.flatMap_cons,
      List.flatMap_map, h 0 (by simp), ih fun i hi => h (i + 1) (by simpa using hi)]
    rfl

variable {sent : Nat → List String}

theorem Faithful.advance (h : Faithful fs visitor files s sent) (hc : Carries files s sent)
    (i : Nat) : ∃ sent', Faithful fs visitor files (s.advance fs visitor files i) sent' ∧
      Carries files (s.advance fs visitor files i) sent' := by
  cases ht : s.tasks[i]? with
  | none =>
    rw [advance_of_none ht]
    exact ⟨sent, h, hc⟩
  | some t =>
    have hi : i < files.length := by
      rw [← h.length]
      exact (List.getElem?_eq_some_iff.mp ht).1
    have hp := List.getElem?_eq_getElem hi
    obtain ⟨t', new, htasks, hat, hitems, hmono, hfail⟩ :=
      (advance_moves hp ht).taskAt ht (h.task hp ht) fun f hf => h.failed (hf ▸ ht)
    refine ⟨Function.update sent i (sent i ++ new), ⟨?_, ?_, ?_⟩, ?_⟩
    · rw [htasks, List.length_set, h.length]
    · intro j path u hp' hu
      rw [htasks] at hu
      by_cases hj : j = i
      · subst hj
        rw [List.getElem?_set_self (by rw [h.length]; exact hi)] at hu
        cases hu
        cases hp.symm.trans hp'
        rwa [Function.update_self]
      · rw [List.getElem?_set_ne (Ne.symm hj)] at hu
        rw [Function.update_of_ne hj]
        exact h.task hp' hu
    · intro j f hu
      rw [htasks] at hu
      by_cases hj : j = i
      · subst hj
        rw [List.getElem?_set_self (by rw [h.length]; exact hi)] at hu
        exact hfail f (Option.some.inj hu)
      · rw [List.getElem?_set_ne (Ne.symm hj)] at hu
        exact hmono (h.failed hu)
    · rw [Carries, hitems]
      refine (List.Perm.append_right _ hc).trans ?_
      rw [← List.map_append]
      exact (flatMap_range_update sent hi new).symm.map _

/-- Faithfulness does not look at the channel, and stopping breaks nothing. -/
theorem Faithful.congr (h : Faithful fs visitor files s sent) (ht : s'.tasks = s.tasks)
    (hs : s.stopped = true → s'.stopped = true) : Faithful fs visitor files s' sent where
  length := by rw [ht, h.length]
  task := by rw [ht]; exact h.task
  failed := by rw [ht]; exact fun hf => hs (h.failed hf)

theorem Faithful.step (h : Faithful fs visitor files s sent) (hc : Carries files s sent)
    (e : ScanEvent) : ∃ sent', Faithful fs visitor files (s.step fs visitor files e) sent' ∧
      Carries files (s.step fs visitor files e) sent' := by
  cases e with
  | advance i => exact h.advance hc i
  | cancel => exact ⟨sent, h.congr rfl fun _ => rfl, hc⟩
  | receive => exact ⟨sent, h.congr rfl id, by simpa [Carries, Scan.step] using hc⟩
  | close => exact ⟨sent, h.congr rfl fun _ => rfl, hc⟩

/-- After any events every task stands where it may stand. -/
theorem Faithful.run (h : Faithful fs visitor files s sent) (hc : Carries files s sent)
    (events : List ScanEvent) : ∃ sent', Faithful fs visitor files (s.run fs visitor files events) sent' ∧
      Carries files (s.run fs visitor files events) sent' := by
  induction events generalizing s sent with
  | nil => exact ⟨sent, h, hc⟩
  | cons e events ih =>
    obtain ⟨sent', h', hc'⟩ := h.step hc e
    exact ih h' hc'

end Faithful

end LogQuery.Engine
