import Mathlib.Data.List.Nodup
import LogQuery.Proofs.Live.Broadcaster

/-!
# Accepted events

After any events every subscription has accepted a part of the events of the lines it
was offered, in their order, and each of them is accounted for.
-/

namespace LogQuery.Live.Broadcaster

open Subscription (Accounted Answered)

variable {n id : Nat} {b : Broadcaster} {s : Subscription} {events : List Event}

/-- The events of the lines for the subscription of an id that are brought during a run
while it is registered. -/
def wanted (id : Nat) (b : Broadcaster) : List Event → List String
  | [] => []
  | e :: events => ((b.subscription? id).bind (e.wanted id)).toList ++ (b.step e).wanted id events

theorem wanted_append (id : Nat) (b : Broadcaster) (events : List Event) (e : Event) :
    b.wanted id (events ++ [e]) =
      b.wanted id events ++ (((b.run events).subscription? id).bind (e.wanted id)).toList := by
  induction events generalizing b with
  | nil => simp [wanted, run]
  | cons first events ih =>
    change _ ++ (b.step first).wanted id (events ++ [e]) = _
    rw [ih, ← List.append_assoc]
    rfl

theorem accounted_run (h : ((ofCapacity n).run events).subscription? id = some s) :
    s.Accounted (max 1 n) :=
  run_induction (fun _ => Subscription.accounted_ofPlan (max 1 n) id)
    (fun _ _ _ _ _ hchanges hs => hchanges.accounted hs) events s h

/-- A sink that has answered a number of times has let its subscription accept no more than
that number of events, one that is being handed over, and a full queue. -/
theorem answered_run (h : ((ofCapacity n).run events).subscription? id = some s) :
    s.Answered (max 1 n) (events.countP (·.answers id)) := by
  refine run_induction (fun events => Subscription.answered_ofPlan (max 1 n) _ id)
    (fun events e s s' hs hchanges ha => ?_) events s h
  rw [List.countP_append, List.countP_singleton]
  exact hchanges.answered_le (accounted_run hs) ha

theorem accepted_sublist_wanted (h : ((ofCapacity n).run events).subscription? id = some s) :
    s.accepted.Sublist ((ofCapacity n).wanted id events) := by
  refine run_induction
    (P := fun events s => s.accepted.Sublist ((ofCapacity n).wanted id events))
    (fun _ _ _ => List.nil_sublist _) (fun events e s s' hs hchanges hsub => ?_) events s h
  rw [wanted_append, hs]
  rcases hchanges.accepted_eq with hsame | ⟨event, hw, hmore⟩
  · rw [hsame]
    exact hsub.trans (List.sublist_append_left _ _)
  · rw [hmore, Option.bind_some, hw]
    exact hsub.append (List.Sublist.refl _)

theorem ids_nodup (n : Nat) (events : List Event) :
    (((ofCapacity n).run events).subscriptions.map (·.id)).Nodup := by
  induction events using List.reverseRecOn with
  | nil => exact List.nodup_nil
  | append_singleton events e ih =>
    have hacted (b : Broadcaster) : (b.subscriptions.map fun s => e.act b.capacity s.id s).map
        (·.id) = b.subscriptions.map (·.id) := by
      rw [List.map_map]
      exact List.map_congr_left fun s _ => act_id ..
    rw [run_append]
    rcases step_subscriptions ((ofCapacity n).run events) e with ⟨h, -⟩ | ⟨id, plan, -, hnew, h⟩
    · rw [h, hacted]
      exact ih
    · rw [h, List.map_append, hacted]
      refine ih.append (List.nodup_singleton id) (List.disjoint_singleton.mpr fun hid => ?_)
      obtain ⟨s, hs, hsid⟩ := List.mem_map.mp hid
      exact List.find?_eq_none.mp hnew s hs (by simp [hsid, Subscription.ofPlan])

theorem subscription?_of_mem (hids : (b.subscriptions.map (·.id)).Nodup)
    (hs : s ∈ b.subscriptions) : b.subscription? s.id = some s := by
  cases hfound : b.subscription? s.id with
  | none => exact absurd (beq_self_eq_true s.id) (List.find?_eq_none.mp hfound s hs)
  | some t =>
    have ht : t.id = s.id := by simpa using List.find?_some hfound
    rw [List.inj_on_of_nodup_map hids (List.mem_of_find?_eq_some hfound) hs ht]

/-- Whether an event has lengthened the accepted sequence of a subscription. -/
def hasGrown (after : Broadcaster) (s : Subscription) : Bool :=
  (after.subscription? s.id).any (·.accepted != s.accepted)

theorem hasGrown_map {f : Subscription → Subscription} (hid : ∀ s, (f s).id = s.id)
    (hids : (b.subscriptions.map (·.id)).Nodup) (hs : s ∈ b.subscriptions) :
    hasGrown { b with subscriptions := b.subscriptions.map f } s =
      ((f s).accepted != s.accepted) := by
  have hmapped : (b.subscriptions.map f).map (·.id) = b.subscriptions.map (·.id) := by
    rw [List.map_map]
    exact List.map_congr_left fun t _ => hid t
  have hfound : subscription? { b with subscriptions := b.subscriptions.map f } (f s).id =
      some (f s) :=
    subscription?_of_mem (by rw [hmapped]; exact hids) (List.mem_map_of_mem hs)
  rw [hid] at hfound
  rw [hasGrown, hfound]
  rfl

theorem accepting_eq (hids : (b.subscriptions.map (·.id)).Nodup) (source line : String) :
    b.accepting source line = b.subscriptions.countP (b.ingest source line).hasGrown := by
  refine List.countP_congr fun s hs => ?_
  rw [ingest, hasGrown_map (fun s => by simp [Subscription.offer]) hids hs,
    Subscription.accepts_iff]
  simp [Subscription.offer]

section InAnyOrder

variable {order : List Nat}

/-- Events of several ids, one for each, change the subscriptions of these ids once. -/
theorem run_each {event : Nat → Event} {f : Nat → Subscription → Subscription}
    (hstep : ∀ (b : Broadcaster) id, b.step (event id) = b.update id (f b.capacity))
    (hid : ∀ capacity s, (f capacity s).id = s.id) (hn : order.Nodup) (b : Broadcaster) :
    b.run (order.map event) =
      { b with subscriptions := b.subscriptions.map fun s =>
          if s.id ∈ order then f b.capacity s else s } := by
  induction order generalizing b with
  | nil => simp [run]
  | cons i order ih =>
    obtain ⟨hi, hn⟩ := List.nodup_cons.mp hn
    change (b.step (event i)).run (order.map event) = _
    rw [hstep, ih hn, update, List.map_map]
    congr 1
    refine List.map_congr_left fun s _ => ?_
    by_cases hs : s.id = i
    · subst hs
      simp [hid, hi]
    · simp [hs]

/-- Events of all ids change all subscriptions. -/
theorem run_all {event : Nat → Event} {f : Nat → Subscription → Subscription}
    (hstep : ∀ (b : Broadcaster) id, b.step (event id) = b.update id (f b.capacity))
    (hid : ∀ capacity s, (f capacity s).id = s.id) (hn : order.Nodup)
    (hall : ∀ s ∈ b.subscriptions, s.id ∈ order) : b.run (order.map event) =
      { b with subscriptions := b.subscriptions.map (f b.capacity) } := by
  rw [run_each hstep hid hn]
  congr 1
  exact List.map_congr_left fun s hs => if_pos (hall s hs)

theorem run_offers (hn : order.Nodup) (hall : ∀ s ∈ b.subscriptions, s.id ∈ order)
    (source line : String) : b.run (order.map (.offer · source line)) =
      { b with subscriptions := b.subscriptions.map (·.push b.capacity source line) } :=
  run_all (f := fun capacity => .push capacity source line) (fun _ _ => rfl)
    (fun _ _ => Subscription.push_id ..) hn hall

/-- A line that is brought is offered to one subscription after the other, in any order,
before those whose forwarder has stopped are forgotten. -/
theorem run_offers_forgets (hn : order.Nodup) (hall : ∀ s ∈ b.subscriptions, s.id ∈ order)
    (source line : String) :
    b.run (order.map (.offer · source line) ++ order.map .forget) = b.ingest source line := by
  rw [run, List.foldl_append, ← run, ← run, run_offers hn hall, run_all (f := fun _ => .forget)
    (fun _ _ => rfl) (fun _ _ => Subscription.forget_id) hn, ingest, List.map_map]
  · rfl
  · intro s hs
    obtain ⟨t, ht, rfl⟩ := List.mem_map.mp hs
    rw [Subscription.push_id]
    exact hall t ht

theorem accepting_eq_offered (hids : (b.subscriptions.map (·.id)).Nodup) (hn : order.Nodup)
    (hall : ∀ s ∈ b.subscriptions, s.id ∈ order) (source line : String) :
    b.accepting source line =
      b.subscriptions.countP (b.run (order.map (.offer · source line))).hasGrown := by
  rw [run_offers hn hall]
  refine List.countP_congr fun s hs => ?_
  rw [hasGrown_map (fun _ => Subscription.push_id ..) hids hs, Subscription.accepts_iff]
  simp

end InAnyOrder

theorem accepts_iff_offered (h : b.subscription? s.id = some s) (source line : String) :
    s.accepts b.capacity source line = true ↔
      (b.step (.offer s.id source line)).hasGrown s = true := by
  have hstep := subscription?_step_of_some (.offer s.id source line) h
  rw [Event.act, if_pos rfl] at hstep
  rw [hasGrown, hstep, Subscription.accepts_iff]
  simp

/-- After any events, every subscription has handed over its accepted events in order, and
while its forwarder runs the rest of them is in its queue, which is bounded. It has accepted
a part of the events of the lines that were for it, and refuses one only when the queue is
full or the forwarder has stopped. Bringing a line gives the number of subscriptions that
accept it, in whatever order it is offered to them, and takes none out of the registry whose
forwarder runs. A query that does not compile changes nothing. -/
theorem subscriptions_accounted (n : Nat) (events : List Event) :
    let b := (ofCapacity n).run events
    (∀ s ∈ b.subscriptions,
      s.handed <+: s.accepted ∧
      (s.isStopped = false → s.handed ++ s.queue = s.accepted) ∧
      s.queue.length ≤ max 1 n ∧
      ((∀ e ∈ events, e.answers s.id = false) → s.accepted.length ≤ max 1 n + 1) ∧
      s.accepted.Sublist ((ofCapacity n).wanted s.id events) ∧
      (∀ e event, e.wanted s.id s = some event →
        ∃ s', (b.step e).subscription? s.id = some s' ∧
          (s'.accepted = s.accepted ++ [event] ∨
            max 1 n ≤ s.queue.length ∨ s.isStopped = true)) ∧
      (∀ source line, s.accepts b.capacity source line = true ↔
        (b.step (.offer s.id source line)).hasGrown s = true) ∧
      (∀ e, e.brings = true → s.registered = true → s.isStopped = false →
        ∃ s', (b.step e).subscription? s.id = some s' ∧ s'.registered = true)) ∧
    (∀ source line, b.accepting source line =
      b.subscriptions.countP (b.ingest source line).hasGrown) ∧
    (∀ order : List Nat, order.Nodup → (∀ s ∈ b.subscriptions, s.id ∈ order) → ∀ source line,
      b.run (order.map (.offer · source line) ++ order.map .forget) = b.ingest source line ∧
      b.accepting source line =
        b.subscriptions.countP (b.run (order.map (.offer · source line))).hasGrown) ∧
    ∀ id text error, Plan.ofQuery text = .error error → b.step (.subscribe id text) = b := by
  intro b
  have hids : (b.subscriptions.map (·.id)).Nodup := ids_nodup n events
  have hcapacity : b.capacity = max 1 n := run_capacity ..
  refine ⟨fun s hs => ?_, accepting_eq hids, fun order hn hall source line => ?_,
    fun id text error herror => ?_⟩
  · have hfound : b.subscription? s.id = some s := subscription?_of_mem hids hs
    have hall := accounted_run hfound
    refine ⟨hall.inOrder, hall.running, hall.bounded, fun hsilent => ?_,
      accepted_sublist_wanted hfound, fun e event hw => ?_, accepts_iff_offered hfound,
      fun e hbrings hregistered hrun => ?_⟩
    · have hanswers : events.countP (·.answers s.id) = 0 :=
        List.countP_eq_zero.mpr fun e he => by simp [hsilent e he]
      have hle := (answered_run hfound).accepted
      rwa [hanswers] at hle
    · refine ⟨_, subscription?_step_of_some e hfound, ?_⟩
      rw [← hcapacity]
      exact (Subscription.act_changes ..).refused hw
    · refine ⟨_, subscription?_step_of_some e hfound, ?_⟩
      rw [Subscription.act_registered hbrings hrun, hregistered]
  · exact ⟨run_offers_forgets hn hall source line, accepting_eq_offered hids hn hall source line⟩
  · rw [step, subscribe, herror]
    rfl

/-- The plan of every record of `app`. -/
def everyRecord : Plan := ⟨["app"], [], [], [], none, .search⟩

/-- The line of a record without fields is brought. -/
def bringEmpty : Event := .ingest "app" "\x7b\x7d"

/-- Three lines come for a sink that does not answer. -/
def silentSink : List Event :=
  [.subscribePlan 0 everyRecord, bringEmpty, .take 0, bringEmpty, bringEmpty]

/-- The event of an empty record. -/
def emptyRecord : String := "\x7b\"type\":\"log\",\"data\":\x7b\x7d\x7d"

/-- The subscription after `silentSink` when the queue holds one event. -/
def fullSubscription : Subscription :=
  ⟨0, everyRecord, true, false, .delivering, [emptyRecord], [emptyRecord, emptyRecord], [emptyRecord]⟩

theorem run_silentSink : (ofCapacity 1).run silentSink = ⟨1, false, [fullSubscription]⟩ := rfl

theorem silentSink_accounted :
    let b := (ofCapacity 1).run silentSink
    fullSubscription ∈ b.subscriptions ∧
      fullSubscription.handed ++ fullSubscription.queue = fullSubscription.accepted ∧
      fullSubscription.accepted.length ≤ 1 + 1 ∧
      (∃ s', (b.step bringEmpty).subscription? 0 = some s' ∧
        (s'.accepted = fullSubscription.accepted ++ [emptyRecord] ∨
          1 ≤ fullSubscription.queue.length ∨ fullSubscription.isStopped = true)) ∧
      (∃ s', (b.step bringEmpty).subscription? 0 = some s' ∧ s'.registered = true) ∧
      b.step (.subscribe 1 "") = b := by
  intro b
  have hs : fullSubscription ∈ b.subscriptions := by
    rw [show b = _ from run_silentSink]
    exact List.mem_singleton_self _
  obtain ⟨hall, -, -, hfailed⟩ := subscriptions_accounted 1 silentSink
  obtain ⟨-, hrunning, -, hsilent, -, hrefused, -, hkept⟩ := hall fullSubscription hs
  have hwanted : bringEmpty.wanted 0 fullSubscription = some emptyRecord := rfl
  exact ⟨hs, hrunning rfl, hsilent (by simp [silentSink, bringEmpty, Event.answers]),
    hrefused bringEmpty _ hwanted, hkept bringEmpty rfl rfl rfl, hfailed 1 "" _ rfl⟩

end LogQuery.Live.Broadcaster
