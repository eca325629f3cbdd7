import LogQuery.Proofs.Engine.Completeness
import LogQuery.Proofs.Live.Accounting
import LogQuery.Proofs.Log.Cut
import LogQuery.Proofs.Text.Encoding

/-!
# Live lines and stored lines

A subscription that always has room is handed the events of all its lines that match,
and a search finds the same lines in a file that holds them. Both sides come down to
what a plan puts out for one line, `Plan.outputOf?`.
-/

namespace LogQuery

open LogQuery.Text LogQuery.Store LogQuery.Log

namespace Engine

variable {c : Config} {fs : FileSystem} {plan : Plan} {p : FilePath}

theorem recordsIn_singleton {content : Bytes} (hfile : fs.read p = .ok content) :
    recordsIn fs plan [p] = ((numberedLines content).map Prod.snd).filterMap plan.outputOf? := by
  rw [recordsIn, List.flatMap_singleton, linesIn_of_ok hfile, recordsOn, List.filterMap_map]
  rfl

/-- The records of a file that holds some lines joined by line feeds. -/
theorem recordsIn_joined {lines : List String}
    (hfile : fs.read p = .ok (encode ("\n".intercalate lines)))
    (hlines : ∀ line ∈ lines, '\n' ∉ line.toList ∧ line.toList.getLast? ≠ some '\r') :
    recordsIn fs plan [p] = lines.filterMap fun line => plan.outputOf? (encode line) := by
  have hwhole : ∀ line ∈ lines.map encode, lineFeed ∉ line := by
    intro line hline hmem
    obtain ⟨text, htext, rfl⟩ := List.mem_map.mp hline
    have hfeed : '\n' ∈ text.toList := (mem_encodeChars_ascii (d := '\n') (by decide)).mp hmem
    exact (hlines text htext).1 hfeed
  have hbare : ∀ line ∈ lines.map encode, line.getLast? ≠ some carriageReturn := by
    intro line hline hlast
    obtain ⟨text, htext, rfl⟩ := List.mem_map.mp hline
    exact (hlines text htext).2 (getLast?_encodeChars_ascii (d := '\r') (by decide) hlast)
  obtain ⟨blank, hcut, hblank⟩ := numberedLines_intercalate hwhole hbare
  have hnone : blank.filterMap plan.outputOf? = [] := by
    refine List.filterMap_eq_nil_iff.mpr fun line hline => ?_
    rw [hblank line hline]
    exact plan.outputOf?_nil
  have hjoined : encode ("\n".intercalate lines) = [lineFeed].intercalate (lines.map encode) :=
    encode_intercalate "\n" lines
  calc recordsIn fs plan [p]
      = ((numberedLines ([lineFeed].intercalate (lines.map encode))).map Prod.snd ++
          blank).filterMap plan.outputOf? := by
        rw [recordsIn_singleton hfile, hjoined, List.filterMap_append, hnone, List.append_nil]
    _ = lines.filterMap fun line => plan.outputOf? (encode line) := by
        rw [← hcut, List.filterMap_map]
        rfl

end Engine

namespace Live

open Engine

/-- The event of a line from a source of a plan. -/
def eventOf? (plan : Plan) (line : String) : Option String :=
  (plan.outputOf? (encode line)).map Record.event

theorem event?_eq (plan : Plan) (source line : String) : event? plan source line =
    (if plan.readsSource source then some line else none).bind (eventOf? plan) := by
  rw [event?]
  split
  · simp [eventOf?, Plan.outputOf?, Function.comp_def]
  · rfl

/-- What is wanted is the event of a line from a source of the plan. -/
theorem Event.wanted_eq (e : Event) (id : Nat) (s : Subscription) : e.wanted id s =
    if s.registered then (e.lineFor? id s.plan).bind (eventOf? s.plan) else none := by
  cases e with
  | ingest source line =>
    rw [Event.wanted, event?_eq]
    rfl
  | offer i source line =>
    rw [Event.wanted, event?_eq, Event.lineFor?, Event.line?]
    by_cases hi : i = id <;> simp [hi]
  | _ => exact (ite_self _).symm

namespace Subscription

variable {capacity id : Nat} {s s' : Subscription} {e : Event}

/-- A forwarder that runs on loses nothing at an event, if there is room for a line. -/
theorem Changes.flow (h : Changes capacity id e s s') (hrun : s'.isStopped = false)
    (hroom : e.lineFor? id s.plan = none ∨ s.hasRoom capacity = true) :
    s'.handed ++ s'.queue =
      s.handed ++ s.queue ++ ((e.lineFor? id s.plan).bind (eventOf? s.plan)).toList := by
  have hwanted : (e.lineFor? id s.plan).bind (eventOf? s.plan) = e.wanted id s := by
    rw [Event.wanted_eq]
    rcases hroom with hnone | hroom
    · rw [hnone, Option.bind_none, ite_self]
    · rw [if_pos (hasRoom_iff.mp hroom).1]
  rw [hwanted]
  cases h with
  | kept hr hrefused =>
    have hnone : e.wanted id s = none := by
      rw [← hwanted]
      rcases hroom with hnone | hroom
      · rw [hnone, Option.bind_none]
      · obtain ⟨-, hrunning, hlt⟩ := hasRoom_iff.mp hroom
        -- an event that is wanted is refused only for want of room or by a stopped forwarder
        by_contra hne
        rcases hrefused (hwanted ▸ hne) with hfull | hstopped
        · exact absurd hlt (Nat.not_lt.mpr hfull)
        · exact Bool.false_ne_true (hrunning.symm.trans hstopped)
    rw [hnone, Option.toList_none, List.append_nil]
  | accepted hw => rw [hw, Option.toList_some, List.append_assoc]
  | taken hw hf hq =>
    rw [hw, hq, Option.toList_none, List.append_nil, List.append_assoc, List.singleton_append]
  | answered ha hw => rw [hw, Option.toList_none, List.append_nil]
  | stopped => cases hrun

end Subscription

/-- A forwarder takes an event from the queue, or its sink has taken the last one. -/
def Event.delivers (id : Nat) (e : Event) : Prop := e = .take id ∨ e = .answer id true

namespace Broadcaster

variable {b : Broadcaster} {id : Nat} {s s' : Subscription} {plan : Plan}

/-- Whether the forwarder of a subscription runs during a whole run, and there is room in
its queue whenever a line from a source of its plan comes. -/
def flows (id : Nat) (b : Broadcaster) : List Event → Bool
  | [] => (b.subscription? id).any fun s => !s.isStopped
  | e :: events =>
    (b.subscription? id).any (fun s =>
      !s.isStopped && ((e.lineFor? id s.plan).isNone || s.hasRoom b.capacity)) &&
      (b.step e).flows id events

/-- The lines that a run brings to the subscription of an id from the sources of a plan. -/
def linesFor (id : Nat) (plan : Plan) (events : List Event) : List String :=
  events.filterMap (·.lineFor? id plan)

theorem filterMap_linesFor_cons (f : String → Option String) (e : Event) (events : List Event) :
    (linesFor id plan (e :: events)).filterMap f =
      ((e.lineFor? id plan).bind f).toList ++ (linesFor id plan events).filterMap f := by
  rw [linesFor, List.filterMap_cons]
  cases e.lineFor? id plan with
  | none => rfl
  | some line =>
    rw [Option.bind_some]
    change List.filterMap f (line :: linesFor id plan events) = _
    rw [List.filterMap_cons]
    cases f line <;> rfl

theorem isStopped_of_flows {events : List Event} (h : b.flows id events = true)
    (hs : b.subscription? id = some s) : s.isStopped = false := by
  cases events with
  | nil => simpa [flows, hs] using h
  | cons e events =>
    simp only [flows, hs, Option.any_some, Bool.and_eq_true, Bool.not_eq_true'] at h
    exact h.1.1

/-- Nothing is lost during a run in which a subscription always has room. -/
theorem flows_run {events : List Event} (hs : b.subscription? id = some s)
    (hflows : b.flows id events = true) :
    ∃ s', (b.run events).subscription? id = some s' ∧ s'.isStopped = false ∧
      s'.handed ++ s'.queue =
        s.handed ++ s.queue ++ (linesFor id s.plan events).filterMap (eventOf? s.plan) := by
  -- on the events to come, for every broadcaster: what is handed over or queued only grows
  induction events generalizing b s with
  | nil => exact ⟨s, hs, isStopped_of_flows hflows hs, (List.append_nil _).symm⟩
  | cons e events ih =>
    have hstep := subscription?_step_of_some e hs
    have hchanges := Subscription.act_changes b.capacity id e s
    obtain ⟨hhead, htail⟩ := Bool.and_eq_true_iff.mp hflows
    have hroom : e.lineFor? id s.plan = none ∨ s.hasRoom b.capacity = true := by
      simpa [hs, isStopped_of_flows hflows hs] using hhead
    obtain ⟨s', hs', hrun, hall⟩ := ih hstep htail
    refine ⟨s', hs', hrun, ?_⟩
    rw [hall, hchanges.plan_eq, hchanges.flow (isStopped_of_flows htail hstep) hroom,
      filterMap_linesFor_cons, List.append_assoc]

theorem drain_idle (hs : b.subscription? id = some s) (hidle : s.forwarder = .idle) :
    ∃ more, (∀ e ∈ more, e.delivers id) ∧ (b.run more).handed id = s.handed ++ s.queue := by
  induction hq : s.queue generalizing b s with
  | nil =>
    refine ⟨[], nofun, ?_⟩
    rw [List.append_nil]
    exact congrArg (Option.elim · [] Subscription.handed) hs
  | cons event rest ih =>
    -- the event is handed over and the sink takes it
    let taken : Subscription :=
      { s with forwarder := .delivering, queue := rest, handed := s.handed ++ [event] }
    have htaken : (b.step (.take id)).subscription? id = some taken := by
      rw [subscription?_step_of_some _ hs, Event.act, if_pos rfl, Subscription.take, hidle, hq]
    have hanswered : ((b.step (.take id)).step (.answer id true)).subscription? id =
        some { taken with forwarder := .idle } := by
      rw [subscription?_step_of_some _ htaken, Event.act, if_pos rfl]
      rfl
    obtain ⟨more, hmore, hall⟩ := ih hanswered rfl rfl
    refine ⟨.take id :: .answer id true :: more, ?_, ?_⟩
    · exact List.forall_mem_cons.mpr ⟨.inl rfl, List.forall_mem_cons.mpr ⟨.inr rfl, hmore⟩⟩
    · change (((b.step (.take id)).step (.answer id true)).run more).handed id = _
      rw [hall]
      exact List.append_assoc ..

/-- A forwarder that runs can go on until everything in its queue is handed over. -/
theorem drain (hs : b.subscription? id = some s) (hrun : s.isStopped = false) :
    ∃ more, (∀ e ∈ more, e.delivers id) ∧ (b.run more).handed id = s.handed ++ s.queue := by
  cases hf : s.forwarder with
  | idle => exact drain_idle hs hf
  | stopped => simp [Subscription.isStopped, hf] at hrun
  | delivering =>
    have hanswered : (b.step (.answer id true)).subscription? id =
        some { s with forwarder := .idle } := by
      rw [subscription?_step_of_some _ hs, Event.act, if_pos rfl, Subscription.answer, hf]
      rfl
    obtain ⟨more, hmore, hall⟩ := drain_idle hanswered rfl
    exact ⟨.answer id true :: more, List.forall_mem_cons.mpr ⟨.inr rfl, hmore⟩, hall⟩

/-- What is handed to the sink of a subscription that always has room are the events of the
records that a search with its plan finds, in order, in a file that holds the lines brought
to it. Some of them may still be in its queue, and they can all be handed over. -/
theorem handed_as_searched (c : Config) {fs : FileSystem} {p : FilePath} {events : List Event}
    {lines : List String} (hs : b.subscription? id = some s)
    (hkind : s.plan.kind = .search) (hflows : b.flows id events = true)
    (hbrought : linesFor id s.plan events = lines)
    (hlines : ∀ line ∈ lines, '\n' ∉ line.toList ∧ line.toList.getLast? ≠ some '\r')
    (hfile : fs.read p = .ok (encode ("\n".intercalate lines))) (hsort : c.skipSort = false) :
    let records := recordsIn fs s.plan [p]
    let all := s.handed ++ s.queue ++ records.map Record.event
    Engine.run c fs s.plan [p] false = .ok (.search (records.map .record)) ∧
    (∀ es, Calm es → (searchUnder c fs s.plan [p] false es).phase = .ended →
      (searchUnder c fs s.plan [p] false es).items = records.map .record) ∧
    (∃ s', (b.run events).subscription? id = some s' ∧ s'.handed ++ s'.queue = all) ∧
    ∃ more, (∀ e ∈ more, e.delivers id) ∧ (b.run (events ++ more)).handed id = all := by
  intro records all
  have hreadable : ∀ q ∈ [p], Readable fs q := by
    intro q hq
    obtain rfl := List.mem_singleton.mp hq
    exact ⟨_, hfile⟩
  obtain ⟨hsends, hrun⟩ := ordered_search (c := c) hreadable hkind hsort
  have hevents : lines.filterMap (eventOf? s.plan) = records.map Record.event := by
    change _ = (recordsIn fs s.plan [p]).map Record.event
    rw [recordsIn_joined hfile hlines, List.map_filterMap]
    rfl
  obtain ⟨s', hs', hrunning, hall⟩ := flows_run hs hflows
  rw [hbrought, hevents] at hall
  obtain ⟨more, hmore, hdrained⟩ := drain hs' hrunning
  refine ⟨hrun, hsends, ⟨s', hs', hall⟩, more, hmore, ?_⟩
  have happend : b.run (events ++ more) = (b.run events).run more := List.foldl_append
  rw [happend, hdrained, hall]

/-- A record, a line that is no record, a record without fields, and a blank line. -/
def appLines : List String := ["\x7b\"n\":1\x7d", "n=2", "\x7b\x7d", ""]

/-- The lines come from `app` with another one from elsewhere. -/
def appRun : List Event :=
  [.ingest "app" "\x7b\"n\":1\x7d", .take 0, .ingest "web" "0", .ingest "app" "n=2", .answer 0 true,
    .ingest "app" "\x7b\x7d", .take 0, .ingest "app" ""]

def appLog : FileSystem where
  top := .directory [("log", .file (encode ("\n".intercalate appLines)))]
  working := []

/-- The queue holds one event, and the sink has not answered for the last one. -/
theorem appRun_handed :
    let b := (ofCapacity 1).run [.subscribePlan 0 everyRecord]
    Engine.run ⟨⟨"/"⟩, 1, false, 1⟩ appLog everyRecord [theLog] false =
      .ok (.search [.record "\x7b\"n\":1\x7d", .record "\x7b\x7d"]) ∧
    ∃ more, (∀ e ∈ more, Event.delivers 0 e) ∧ (b.run (appRun ++ more)).handed 0 =
      ["\x7b\"type\":\"log\",\"data\":\x7b\"n\":1\x7d\x7d", emptyRecord] := by
  intro b
  let s : Subscription := .ofPlan 0 everyRecord false
  have hsubscribed : b.subscription? 0 = some s := rfl
  have hflows : b.flows 0 appRun = true := by decide +kernel
  have hlines : ∀ line ∈ appLines, '\n' ∉ line.toList ∧ line.toList.getLast? ≠ some '\r' := by
    decide
  have hfile : appLog.read theLog = .ok (encode ("\n".intercalate appLines)) := rfl
  obtain ⟨hrun, -, -, hhanded⟩ :=
    handed_as_searched ⟨⟨"/"⟩, 1, false, 1⟩ hsubscribed rfl hflows rfl hlines hfile rfl
  have hrecords : recordsIn appLog s.plan [theLog] = ["\x7b\"n\":1\x7d", "\x7b\x7d"] := by
    decide +kernel
  have hevents : ["\x7b\"n\":1\x7d", "\x7b\x7d"].map Record.event =
      ["\x7b\"type\":\"log\",\"data\":\x7b\"n\":1\x7d\x7d", emptyRecord] := by decide +kernel
  rw [hrecords] at hrun hhanded
  rw [hevents] at hhanded
  exact ⟨hrun, hhanded⟩

end Broadcaster

end Live

end LogQuery
