import LogQuery.Hub.Socket
import LogQuery.Proofs.Live.Accounting

/-!
# What a socket owns

Between two messages a socket owns the subscription that it holds and no other one, and this
is the one of its latest query. Others may do what they like in the meantime, also while the
socket has given up its last subscription and not asked for the next one yet.
-/

namespace LogQuery.Hub

open LogQuery.Live LogQuery.Live.Broadcaster

/-- The query in a message, if it holds one. -/
def Message.query? : Message → Option String
  | .text content => queryOf? content.toList
  | _ => none

/-- The reply that a query calls for: none if it compiles. -/
def errorReply? (text : String) : Option String :=
  match Plan.ofQuery text with
  | .ok _ => none
  | .error e => some (errorReply e)

namespace Socket

/-- Asks for a query after the subscription was given up. -/
def renew (s : Socket) (b : Broadcaster) (id : Nat) (arrives : Bool) (text : String) :
    Socket × Broadcaster :=
  match b.subscribe id text with
  | .ok b => ({ s with current := some id }, b)
  | .error e =>
    if arrives then ({ s with replies := s.replies ++ [errorReply e] }, b) else s.finish b

/-- Takes in a message while other things happen between the end of the last subscription
and the request for the next one. -/
def receiveAmid (between : List Event) (s : Socket) (b : Broadcaster) (id : Nat) (arrives : Bool)
    (m : Message) : Socket × Broadcaster :=
  if s.ended then (s, b)
  else
    match m with
    | .text content =>
      match queryOf? content.toList with
      | some text => (s.release b).1.renew ((s.release b).2.run between) id arrives text
      | none => (s, b)
    | .other => (s, b)
    | .close | .failure => s.finish b

/-- What a socket does with a message when nothing else happens meanwhile. -/
theorem receiveAmid_nil (s : Socket) (b : Broadcaster) (id : Nat) (arrives : Bool) (m : Message) :
    s.receiveAmid [] b id arrives m = s.receive b id arrives m := rfl

/-- All that may become of a message. -/
inductive Outcome (between : List Event) (s : Socket) (b : Broadcaster) (id : Nat) (m : Message) :
    Socket × Broadcaster → Prop
  | finished (h : s.ended = true) : Outcome between s b id m (s, b)
  | passed (h : s.ended = false) (hm : m.query? = none) : Outcome between s b id m (s, b)
  | closed (h : s.ended = false) (hm : m.query? = none) :
      Outcome between s b id m ({ s with current := none, ended := true }, (s.release b).2)
  | subscribed {text : String} {plan : Plan} (h : s.ended = false) (hm : m.query? = some text)
      (hplan : Plan.ofQuery text = .ok plan) :
      Outcome between s b id m
        ({ s with current := some id }, ((s.release b).2.run between).subscribePlan id plan)
  | refused {text : String} {e : Compile.Error} (h : s.ended = false) (hm : m.query? = some text)
      (he : Plan.ofQuery text = .error e) :
      Outcome between s b id m
        ({ s with current := none, replies := s.replies ++ [errorReply e] },
          (s.release b).2.run between)
  | lost {text : String} {e : Compile.Error} (h : s.ended = false) (hm : m.query? = some text)
      (he : Plan.ofQuery text = .error e) :
      Outcome between s b id m
        ({ s with current := none, ended := true }, (s.release b).2.run between)

theorem receiveAmid_outcome (between : List Event) (s : Socket) (b : Broadcaster) (id : Nat)
    (arrives : Bool) (m : Message) :
    Outcome between s b id m (s.receiveAmid between b id arrives m) := by
  unfold receiveAmid
  split
  next h => exact .finished h
  next h =>
    have hopen : s.ended = false := Bool.eq_false_iff.mpr h
    split
    next content =>
      split
      next text hquery =>
        unfold renew subscribe
        cases hplan : Plan.ofQuery text with
        | ok plan => exact .subscribed hopen hquery hplan
        | error e =>
          cases arrives with
          | true => exact .refused hopen hquery hplan
          | false => exact .lost hopen hquery hplan
      next hquery => exact .passed hopen hquery
    · exact .passed hopen rfl
    · exact .closed hopen rfl
    · exact .closed hopen rfl

end Socket

section Others

variable {b : Broadcaster} {ids : List Nat} {current : Option Nat} {id : Nat} {e : Event}

/-- An event that asks for no subscription under some ids. -/
def Foreign (ids : List Nat) (e : Event) : Prop := ∀ id plan, e.asked? = some (id, plan) → id ∉ ids

/-- Under some ids, none but one is registered. -/
def OnlyCurrent (ids : List Nat) (current : Option Nat) (b : Broadcaster) : Prop :=
  ∀ s ∈ b.subscriptions, s.id ∈ ids → s.registered = true → current = some s.id

theorem registered_of_changes {capacity : Nat} {s s' : Subscription}
    (h : Subscription.Changes capacity id e s s') (hr : s'.registered = true) :
    s.registered = true := by
  cases h with
  | kept hkept => exact hkept hr
  | _ => exact hr

/-- What an event makes of the subscriptions under ids that it does not ask for. -/
theorem mem_step_foreign (he : Foreign ids e) {s' : Subscription}
    (hs : s' ∈ (b.step e).subscriptions) (hid : s'.id ∈ ids) :
    ∃ s ∈ b.subscriptions, s' = e.act b.capacity s.id s := by
  rcases step_subscriptions b e with ⟨h, -⟩ | ⟨i, plan, hasked, -, h⟩
  · rw [h] at hs
    obtain ⟨s, hmem, heq⟩ := List.mem_map.mp hs
    exact ⟨s, hmem, heq.symm⟩
  · rw [h] at hs
    rcases List.mem_append.mp hs with hs | hs
    · obtain ⟨s, hmem, heq⟩ := List.mem_map.mp hs
      exact ⟨s, hmem, heq.symm⟩
    · rw [List.mem_singleton.mp hs] at hid
      exact absurd hid (he i plan hasked)

theorem OnlyCurrent.step (h : OnlyCurrent ids current b) (he : Foreign ids e) :
    OnlyCurrent ids current (b.step e) := by
  intro s' hs' hid hr
  obtain ⟨s, hs, rfl⟩ := mem_step_foreign he hs' hid
  rw [act_id] at hid ⊢
  exact h s hs hid (registered_of_changes (Subscription.act_changes ..) hr)

theorem OnlyCurrent.run {events : List Event} (h : OnlyCurrent ids current b)
    (he : ∀ e ∈ events, Foreign ids e) : OnlyCurrent ids current (b.run events) := by
  induction events generalizing b with
  | nil => exact h
  | cons e events ih =>
    obtain ⟨hfirst, hrest⟩ := List.forall_mem_cons.mp he
    exact ih (h.step hfirst) hrest

theorem foreign_ingest (ids : List Nat) (source line : String) :
    Foreign ids (.ingest source line) := nofun

theorem foreign_unsubscribe (ids : List Nat) (id : Nat) : Foreign ids (.unsubscribe id) := nofun

/-- After its unsubscription a subscription is not registered. -/
theorem OnlyCurrent.unsubscribe (h : OnlyCurrent ids (some id) b) :
    OnlyCurrent ids none (b.unsubscribe id) := by
  intro s' hs' hid hr
  obtain ⟨s, hs, rfl⟩ := mem_step_foreign (foreign_unsubscribe ids id) hs' hid
  rw [act_id] at hid
  have hregistered := registered_of_changes (Subscription.act_changes ..) hr
  cases h s hs hid hregistered
  simp [Event.act, Subscription.cancel, hregistered, Subscription.remove, Subscription.halt] at hr

theorem OnlyCurrent.release {s : Socket} (h : OnlyCurrent ids s.current b) :
    OnlyCurrent ids none (s.release b).2 := by
  rw [Socket.release]
  cases hcurrent : s.current with
  | none => rwa [hcurrent] at h
  | some id =>
    rw [hcurrent] at h
    exact h.unsubscribe

/-- An id that was never used may be counted in. -/
theorem OnlyCurrent.fresh (h : OnlyCurrent ids current b) (hid : b.subscription? id = none) :
    OnlyCurrent (id :: ids) current b := by
  intro s hs hmem hr
  rcases List.mem_cons.mp hmem with rfl | hmem
  · exact absurd (beq_self_eq_true s.id) (List.find?_eq_none.mp hid s hs)
  · exact h s hs hmem hr

theorem subscribePlan_fresh (hid : b.subscription? id = none) (plan : Plan) :
    (b.subscribePlan id plan).subscriptions = b.subscriptions ++ [.ofPlan id plan b.down] := by
  simp [subscribePlan, hid]

theorem OnlyCurrent.subscribePlan (h : OnlyCurrent ids none b) (hid : b.subscription? id = none)
    (plan : Plan) : OnlyCurrent (id :: ids) (some id) (b.subscribePlan id plan) := by
  intro s hs hmem hr
  rw [subscribePlan_fresh hid] at hs
  rcases List.mem_append.mp hs with hs | hs
  · exact nomatch h.fresh hid s hs hmem hr
  · rw [List.mem_singleton.mp hs]
    rfl

theorem foreign_of_cons {events : List Event} (he : ∀ e ∈ events, Foreign (id :: ids) e) :
    ∀ e ∈ events, Foreign [id] e := fun e hmem i plan hasked hi =>
  he e hmem i plan hasked (List.mem_singleton.mp hi ▸ List.mem_cons_self)

theorem foreign_of_cons_tail {events : List Event} (he : ∀ e ∈ events, Foreign (id :: ids) e) :
    ∀ e ∈ events, Foreign ids e := fun e hmem i plan hasked hi =>
  he e hmem i plan hasked (List.mem_cons_of_mem _ hi)

theorem subscription?_foreign (hid : b.subscription? id = none) (he : Foreign [id] e) :
    (b.step e).subscription? id = none := by
  have hplan : e.plan? id = none := by
    refine Option.bind_eq_none_iff.mpr fun (i, plan) hasked => if_neg ?_
    rintro rfl
    exact he i plan hasked List.mem_cons_self
  rw [subscription?_step, hid, hplan]
  rfl

theorem subscription?_run_foreign {events : List Event} (hid : b.subscription? id = none)
    (he : ∀ e ∈ events, Foreign [id] e) : (b.run events).subscription? id = none := by
  induction events generalizing b with
  | nil => exact hid
  | cons e events ih =>
    obtain ⟨hfirst, hrest⟩ := List.forall_mem_cons.mp he
    exact ih (subscription?_foreign hid hfirst) hrest

end Others

/-- A socket in the middle of what goes on: the broadcaster, the ids that were brought for
the subscriptions of the socket, and the queries that it has taken in. -/
structure Session where
  socket : Socket
  broadcaster : Broadcaster
  ids : List Nat
  queries : List String

namespace Session

/-- The session after a message. A socket that has ended takes in nothing. -/
def receive (σ : Session) (between : List Event) (id : Nat) (arrives : Bool) (m : Message) :
    Session :=
  let (socket, broadcaster) := σ.socket.receiveAmid between σ.broadcaster id arrives m
  ⟨socket, broadcaster, id :: σ.ids,
    σ.queries ++ if σ.socket.ended then [] else m.query?.toList⟩

/-- The sessions that there can be. Ids are drawn afresh, so nobody else asks for one that
belongs to the socket, and none is drawn twice. -/
inductive Reached (n : Nat) : Session → Prop
  | opened (events : List Event) : Reached n ⟨.opened, (ofCapacity n).run events, [], []⟩
  | elsewhere {σ : Session} {e : Event} (h : Reached n σ) (he : Foreign σ.ids e) :
      Reached n { σ with broadcaster := σ.broadcaster.step e }
  | message {σ : Session} {between : List Event} {id : Nat} (h : Reached n σ)
      (hid : σ.broadcaster.subscription? id = none)
      (hbetween : ∀ e ∈ between, Foreign (id :: σ.ids) e) (arrives : Bool) (m : Message) :
      Reached n (σ.receive between id arrives m)

/-- A message that is taken in while nothing else happens leads to such a session. -/
theorem Reached.receive_alone {n : Nat} {σ : Session} {id : Nat} (h : Reached n σ)
    (hid : σ.broadcaster.subscription? id = none) (arrives : Bool) (m : Message) :
    let after := σ.socket.receive σ.broadcaster id arrives m
    Reached n ⟨after.1, after.2, id :: σ.ids,
      σ.queries ++ if σ.socket.ended then [] else m.query?.toList⟩ := by
  rw [← Socket.receiveAmid_nil]
  exact .message h hid (List.forall_mem_nil _) arrives m

/-- The registered subscriptions of the socket. -/
def owned (σ : Session) : List Subscription :=
  σ.broadcaster.subscriptions.filter fun s => s.registered && σ.ids.contains s.id

/-- Every query that does not compile has been answered with its error, but for the last one
if the socket ended because its answer could not be sent. -/
def Replied (σ : Session) : Prop :=
  σ.socket.replies = σ.queries.filterMap errorReply? ∨
    σ.socket.ended = true ∧ ∃ lost, σ.queries.filterMap errorReply? = σ.socket.replies ++ [lost]

/-- What holds between messages. -/
structure Kept (n : Nat) (σ : Session) : Prop where
  isRun : ∃ events, σ.broadcaster = (ofCapacity n).run events
  only : OnlyCurrent σ.ids σ.socket.current σ.broadcaster
  latest : ∀ id, σ.socket.current = some id → ∃ text s, σ.queries.getLast? = some text ∧
    σ.broadcaster.subscription? id = some s ∧ Plan.ofQuery text = .ok s.plan
  ended : σ.socket.ended = true → σ.socket.current = none
  replied : σ.Replied

variable {n : Nat} {σ : Session}

theorem kept_opened (events : List Event) :
    Kept n ⟨.opened, (ofCapacity n).run events, [], []⟩ where
  isRun := ⟨events, rfl⟩
  only _ _ hid := nomatch hid
  latest _ h := nomatch h
  ended h := nomatch h
  replied := .inl rfl

/-- A step of the broadcaster is one more event of its run. -/
theorem isRun_step {b : Broadcaster} (h : ∃ events, b = (ofCapacity n).run events) (e : Event) :
    ∃ events, b.step e = (ofCapacity n).run events := by
  obtain ⟨events, rfl⟩ := h
  exact ⟨events ++ [e], (run_append _ events e).symm⟩

theorem isRun_run {b : Broadcaster} (h : ∃ events, b = (ofCapacity n).run events)
    (events : List Event) : ∃ all, b.run events = (ofCapacity n).run all := by
  induction events generalizing b with
  | nil => exact h
  | cons e events ih => exact ih (isRun_step h e)

theorem isRun_release {b : Broadcaster} (h : ∃ events, b = (ofCapacity n).run events)
    (s : Socket) : ∃ events, (s.release b).2 = (ofCapacity n).run events := by
  rw [Socket.release]
  cases s.current with
  | none => exact h
  | some id => exact isRun_step h (.unsubscribe id)

theorem Kept.elsewhere {e : Event} (h : σ.Kept n) (he : Foreign σ.ids e) :
    Kept n { σ with broadcaster := σ.broadcaster.step e } where
  isRun := isRun_step h.isRun e
  only := h.only.step he
  latest id hid := by
    obtain ⟨text, s, htext, hs, hplan⟩ := h.latest id hid
    refine ⟨text, _, htext, subscription?_step_of_some e hs, ?_⟩
    rw [(Subscription.act_changes ..).plan_eq, hplan]
  ended := h.ended
  replied := h.replied

theorem errorReply?_ok {text : String} {plan : Plan} (h : Plan.ofQuery text = .ok plan) :
    errorReply? text = none := by
  rw [errorReply?, h]

theorem errorReply?_error {text : String} {e : Compile.Error} (h : Plan.ofQuery text = .error e) :
    errorReply? text = some (errorReply e) := by
  rw [errorReply?, h]

theorem subscription?_subscribePlan {b : Broadcaster} {id : Nat}
    (hid : b.subscription? id = none) (plan : Plan) :
    (b.subscribePlan id plan).subscription? id = some (.ofPlan id plan b.down) := by
  rw [subscription?, subscribePlan_fresh hid, List.find?_append, ← subscription?, hid]
  simp [Subscription.ofPlan]

theorem subscription?_release {b : Broadcaster} {id : Nat} (hid : b.subscription? id = none)
    (s : Socket) : (s.release b).2.subscription? id = none := by
  rw [Socket.release]
  cases s.current with
  | none => exact hid
  | some i => exact subscription?_foreign hid (foreign_unsubscribe [id] i)

theorem Kept.message {between : List Event} {id : Nat} (h : σ.Kept n)
    (hid : σ.broadcaster.subscription? id = none)
    (hbetween : ∀ e ∈ between, Foreign (id :: σ.ids) e) (arrives : Bool) (m : Message) :
    (σ.receive between id arrives m).Kept n := by
  have hreplied (hopen : σ.socket.ended = false) :
      σ.socket.replies = σ.queries.filterMap errorReply? :=
    h.replied.resolve_right fun hlost => nomatch hopen.symm.trans hlost.1
  -- the broadcaster when the last subscription is given up, and when the next one is asked for
  have hreleased := isRun_release h.isRun σ.socket
  have hrun := isRun_run hreleased between
  have honly := h.only.release
  have hfree := honly.run (foreign_of_cons_tail hbetween)
  have hnew := subscription?_release hid σ.socket
  have hfresh := subscription?_run_foreign hnew (foreign_of_cons hbetween)
  have houtcome := Socket.receiveAmid_outcome between σ.socket σ.broadcaster id arrives m
  unfold receive
  generalize σ.socket.receiveAmid between σ.broadcaster id arrives m = after at houtcome ⊢
  cases houtcome with
  | finished hended =>
    rw [hended, if_pos rfl, List.append_nil]
    exact ⟨h.isRun, h.only.fresh hid, h.latest, h.ended, h.replied⟩
  | passed hopen hm =>
    rw [hopen, hm, if_neg Bool.false_ne_true, Option.toList_none, List.append_nil]
    exact ⟨h.isRun, h.only.fresh hid, h.latest, h.ended, h.replied⟩
  | closed hopen hm =>
    rw [hopen, hm, if_neg Bool.false_ne_true, Option.toList_none, List.append_nil]
    exact ⟨hreleased, honly.fresh hnew, nofun, fun _ => rfl, .inl (hreplied hopen)⟩
  | @subscribed text plan hopen hm hplan =>
    rw [hopen, hm, if_neg Bool.false_ne_true, Option.toList_some]
    refine ⟨isRun_step hrun (.subscribePlan id plan), hfree.subscribePlan hfresh plan, ?_, nofun, ?_⟩
    · rintro i ⟨⟩
      exact ⟨text, _, List.getLast?_concat, subscription?_subscribePlan hfresh plan, hplan⟩
    · left
      rw [List.filterMap_append, hreplied hopen]
      simp [errorReply?_ok hplan]
  | @refused text e hopen hm he =>
    rw [hopen, hm, if_neg Bool.false_ne_true, Option.toList_some]
    refine ⟨hrun, hfree.fresh hfresh, nofun, fun _ => rfl, .inl ?_⟩
    rw [List.filterMap_append, hreplied hopen]
    simp [errorReply?_error he]
  | @lost text e hopen hm he =>
    rw [hopen, hm, if_neg Bool.false_ne_true, Option.toList_some]
    refine ⟨hrun, hfree.fresh hfresh, nofun, fun _ => rfl, .inr ⟨rfl, errorReply e, ?_⟩⟩
    rw [List.filterMap_append, hreplied hopen]
    simp [errorReply?_error he]

theorem kept (h : σ.Reached n) : σ.Kept n := by
  induction h with
  | opened events => exact kept_opened events
  | elsewhere _ he ih => exact ih.elsewhere he
  | message _ hid hbetween arrives m ih => exact ih.message hid hbetween arrives m

theorem mem_owned {s : Subscription} : s ∈ σ.owned ↔
    s ∈ σ.broadcaster.subscriptions ∧ s.registered = true ∧ s.id ∈ σ.ids := by
  simp [owned]

/-- A socket that holds no subscription owns none. -/
theorem Kept.owned_nil (h : σ.Kept n) (hnone : σ.socket.current = none) : σ.owned = [] := by
  rw [List.eq_nil_iff_forall_not_mem]
  intro s hs
  obtain ⟨hmem, hr, hid⟩ := mem_owned.mp hs
  have hcurrent := h.only s hmem hid hr
  rw [hnone] at hcurrent
  cases hcurrent

theorem Kept.owned_length (h : σ.Kept n) : σ.owned.length ≤ 1 := by
  obtain ⟨events, hrun⟩ := h.isRun
  have hids : (σ.owned.map (·.id)).Nodup := by
    have hall := ids_nodup n events
    rw [← hrun] at hall
    exact hall.sublist (List.filter_sublist.map _)
  have hcurrent : ∀ s ∈ σ.owned, σ.socket.current = some s.id := by
    intro s hs
    obtain ⟨hmem, hr, hid⟩ := mem_owned.mp hs
    exact h.only s hmem hid hr
  generalize σ.owned = owned at hids hcurrent ⊢
  match owned with
  | [] => exact Nat.zero_le 1
  | [_] => exact Nat.le_refl 1
  | s :: t :: more =>
    obtain ⟨hs, htail⟩ := List.forall_mem_cons.mp hcurrent
    have hid : s.id = t.id := Option.some.inj (hs.symm.trans (htail t List.mem_cons_self))
    have hmem : s.id ∈ (t :: more).map (·.id) := by
      rw [hid]
      exact List.mem_cons_self
    exact absurd hmem (List.nodup_cons.mp hids).1

/-- Whatever a socket owns has the plan of its latest query. -/
theorem Kept.owned_plan (h : σ.Kept n) {s : Subscription} (hs : s ∈ σ.owned) :
    ∃ text, σ.queries.getLast? = some text ∧ Plan.ofQuery text = .ok s.plan := by
  obtain ⟨hmem, hr, hid⟩ := mem_owned.mp hs
  obtain ⟨text, s', htext, hfound, hplan⟩ := h.latest s.id (h.only s hmem hid hr)
  obtain ⟨events, hrun⟩ := h.isRun
  have hids := ids_nodup n events
  rw [← hrun] at hids
  rw [subscription?_of_mem hids hmem] at hfound
  cases hfound
  exact ⟨text, htext, hplan⟩

/-- Between messages a socket owns at most one registered subscription, which has the plan of
its latest query. If this query does not compile it owns none, and every such query has been
answered with its error, unless the socket ended because it could not be. After its end it
owns none. -/
theorem owned_latest (h : σ.Reached n) :
    σ.owned.length ≤ 1 ∧
    (∀ s ∈ σ.owned, ∃ text, σ.queries.getLast? = some text ∧ Plan.ofQuery text = .ok s.plan) ∧
    (∀ text e, σ.queries.getLast? = some text → Plan.ofQuery text = .error e → σ.owned = []) ∧
    σ.Replied ∧
    (σ.socket.ended = true → σ.owned = []) := by
  have hkept := kept h
  refine ⟨hkept.owned_length, fun s hs => hkept.owned_plan hs, fun text e htext he => ?_,
    hkept.replied, fun hended => hkept.owned_nil (hkept.ended hended)⟩
  rw [List.eq_nil_iff_forall_not_mem]
  intro s hs
  obtain ⟨text', htext', hplan⟩ := hkept.owned_plan hs
  rw [htext] at htext'
  cases htext'
  exact nomatch he.symm.trans hplan

theorem broadcaster_receive {between : List Event} {id : Nat} {arrives : Bool} {m : Message}
    {text : String} {plan : Plan} (hopen : σ.socket.ended = false) (hm : m.query? = some text)
    (hplan : Plan.ofQuery text = .ok plan) : (σ.receive between id arrives m).broadcaster =
      ((σ.socket.release σ.broadcaster).2.run between).subscribePlan id plan := by
  have houtcome := Socket.receiveAmid_outcome between σ.socket σ.broadcaster id arrives m
  unfold receive
  generalize σ.socket.receiveAmid between σ.broadcaster id arrives m = after at houtcome ⊢
  cases houtcome with
  | finished hended => exact nomatch hopen.symm.trans hended
  | passed _ hnone | closed _ hnone => exact nomatch hm.symm.trans hnone
  | subscribed _ hm' hplan' =>
    cases hm.symm.trans hm'
    cases hplan.symm.trans hplan'
    rfl
  | refused _ hm' he | lost _ hm' he =>
    cases hm.symm.trans hm'
    exact nomatch hplan.symm.trans he

/-- A query that compiles on an open socket is what the socket owns then. -/
theorem owned_receive {between : List Event} {id : Nat} {arrives : Bool} {m : Message}
    {text : String} {plan : Plan} (h : σ.Reached n) (hid : σ.broadcaster.subscription? id = none)
    (hbetween : ∀ e ∈ between, Foreign (id :: σ.ids) e) (hopen : σ.socket.ended = false)
    (hm : m.query? = some text) (hplan : Plan.ofQuery text = .ok plan) :
    ∃ s, (σ.receive between id arrives m).owned = [s] ∧ s.id = id ∧ s.plan = plan := by
  have hfresh : ((σ.socket.release σ.broadcaster).2.run between).subscription? id = none :=
    subscription?_run_foreign (subscription?_release hid σ.socket) (foreign_of_cons hbetween)
  have hlength := ((kept h).message hid hbetween arrives m).owned_length
  have hmem : .ofPlan id plan ((σ.socket.release σ.broadcaster).2.run between).down ∈
      (σ.receive between id arrives m).owned := by
    refine mem_owned.mpr ⟨?_, rfl, List.mem_cons_self⟩
    rw [broadcaster_receive hopen hm hplan, subscribePlan_fresh hfresh]
    exact List.mem_append_right _ List.mem_cons_self
  obtain ⟨s, hs⟩ := List.length_eq_one_iff.mp
    (Nat.le_antisymm hlength (List.length_pos_of_mem hmem))
  rw [hs, List.mem_singleton] at hmem
  exact ⟨s, hs, by rw [← hmem]; rfl, by rw [← hmem]; rfl⟩

/-- A message with a query for every record of `app`. -/
def askAll : Message := .text "[\"query\",\"SELECT * FROM app\"]"

/-- A message with a query that does not compile. -/
def askNothing : Message := .text "[\"query\",\"\"]"

/-- A socket that is opened when nobody has subscribed. -/
def lonely : Session := ⟨.opened, ofCapacity 1, [], []⟩

/-- The socket with a query for every record of `app`. -/
def asked : Session := lonely.receive [] 0 true askAll

/-- The socket when the error of its next query could not be sent. -/
def failed : Session := asked.receive [bringEmpty] 1 false askNothing

theorem ofQuery_askAll : Plan.ofQuery "SELECT * FROM app" = .ok everyRecord := by
  have hplan : (Plan.ofQuery "SELECT * FROM app").toOption = some everyRecord := by decide +kernel
  cases h : Plan.ofQuery "SELECT * FROM app" with
  | ok plan =>
    rw [h] at hplan
    exact congrArg Except.ok (Option.some.inj hplan)
  | error e =>
    rw [h] at hplan
    cases hplan

theorem query?_askAll : askAll.query? = some "SELECT * FROM app" := by decide +kernel

theorem reached_asked : asked.Reached 1 :=
  .message (.opened []) rfl (List.forall_mem_nil _) true askAll

theorem broadcaster_asked : asked.broadcaster = (ofCapacity 1).subscribePlan 0 everyRecord :=
  broadcaster_receive rfl query?_askAll ofQuery_askAll

theorem reached_failed : failed.Reached 1 := by
  have hforeign : Foreign (1 :: asked.ids) bringEmpty := foreign_ingest _ _ _
  refine .message reached_asked ?_ (List.forall_mem_singleton.mpr hforeign) false askNothing
  rw [broadcaster_asked]
  rfl

theorem owned_latest_failed :
    (∃ s, asked.owned = [s] ∧
      ∃ text, asked.queries.getLast? = some text ∧ Plan.ofQuery text = .ok s.plan) ∧
    failed.Replied ∧ failed.owned = [] := by
  obtain ⟨s, howned, -⟩ : ∃ s, asked.owned = [s] ∧ s.id = 0 ∧ s.plan = everyRecord :=
    owned_receive (.opened []) rfl (List.forall_mem_nil _) rfl query?_askAll ofQuery_askAll
  have hs : s ∈ asked.owned := by
    rw [howned]
    exact List.mem_cons_self
  obtain ⟨-, hlatest, -⟩ := owned_latest reached_asked
  obtain ⟨-, -, hnone, hreplied, -⟩ := owned_latest reached_failed
  have hlast : failed.queries.getLast? = some "" := by decide +kernel
  exact ⟨⟨s, howned, hlatest s hs⟩, hreplied, hnone "" _ hlast rfl⟩

end Session

end LogQuery.Hub
