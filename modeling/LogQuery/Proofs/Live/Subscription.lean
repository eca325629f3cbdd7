import Mathlib.Data.List.Basic
import LogQuery.Live.Broadcaster

/-!
# What happens to a subscription

`Event.act` is what an event does to one subscription, and `Changes` lists all that
this can be. Every event a subscription has accepted is in its queue, has been handed
to its sink, or was in the queue when its forwarder stopped.
-/

namespace LogQuery.Live

/-- What an event does to the subscription of an id. -/
def Event.act (capacity id : Nat) (e : Event) (s : Subscription) : Subscription :=
  match e with
  | .subscribe _ _ | .subscribePlan _ _ => s
  | .unsubscribe i => if i = id then s.cancel else s
  | .ingest source line => s.offer capacity source line
  | .offer i source line => if i = id then s.push capacity source line else s
  | .forget i => if i = id then s.forget else s
  | .shutdown => s.halt.remove
  | .halt => s.halt
  | .clear => s.remove
  | .take i => if i = id then s.take else s
  | .answer i ok => if i = id then s.answer ok else s
  | .notice i => if i = id then s.notice else s

/-- The id and the plan of the subscription that an event asks for. -/
def Event.asked? : Event → Option (Nat × Plan)
  | .subscribe id text => (Plan.ofQuery text).toOption.map (id, ·)
  | .subscribePlan id plan => some (id, plan)
  | _ => none

/-- The plan with which an event asks for the subscription of an id. -/
def Event.plan? (id : Nat) (e : Event) : Option Plan :=
  e.asked?.bind fun (i, plan) => if i = id then some plan else none

/-- The event that a subscription is offered, if it is registered and the line is for it. -/
def Event.wanted (id : Nat) (e : Event) (s : Subscription) : Option String :=
  match e with
  | .ingest source line => if s.registered then event? s.plan source line else none
  | .offer i source line => if i = id ∧ s.registered then event? s.plan source line else none
  | _ => none

/-- The source and the text of a line that an event brings to the subscription of an id. -/
def Event.line? (id : Nat) : Event → Option (String × String)
  | .ingest source line => some (source, line)
  | .offer i source line => if i = id then some (source, line) else none
  | _ => none

/-- A line that an event brings to the subscription of an id from a source of a plan. -/
def Event.lineFor? (id : Nat) (plan : Plan) (e : Event) : Option String :=
  (e.line? id).bind fun (source, line) => if plan.readsSource source then some line else none

/-- Whether an event is an answer of the sink of an id. -/
def Event.answers (id : Nat) : Event → Bool
  | .answer i _ => i == id
  | _ => false

/-- Whether an event is a line that is brought or a part of that. -/
def Event.brings : Event → Bool
  | .ingest _ _ | .offer _ _ _ | .forget _ => true
  | _ => false

namespace Subscription

variable {capacity id : Nat} {s s' : Subscription} {e : Event}

/-- All that an event may do to a subscription. An event that is wanted is accepted, or
there is no room for it. -/
inductive Changes (capacity id : Nat) (e : Event) (s : Subscription) : Subscription → Prop
  | kept {registered cancelled : Bool} (hr : registered = true → s.registered = true)
      (hw : e.wanted id s ≠ none → capacity ≤ s.queue.length ∨ s.isStopped = true) :
      Changes capacity id e s { s with registered := registered, cancelled := cancelled }
  | accepted {event : String} (hw : e.wanted id s = some event) (hrun : s.isStopped = false)
      (hroom : s.queue.length < capacity) :
      Changes capacity id e s
        { s with queue := s.queue ++ [event], accepted := s.accepted ++ [event] }
  | taken {event : String} {rest : List String} (hw : e.wanted id s = none)
      (hf : s.forwarder = .idle) (hq : s.queue = event :: rest) :
      Changes capacity id e s
        { s with forwarder := .delivering, queue := rest, handed := s.handed ++ [event] }
  | answered (ha : e.answers id = true) (hw : e.wanted id s = none)
      (hf : s.forwarder = .delivering) : Changes capacity id e s { s with forwarder := .idle }
  | stopped (hw : e.wanted id s = none) (hrun : s.isStopped = false) :
      Changes capacity id e s s.stop

theorem Changes.refl (hw : e.wanted id s = none) : Changes capacity id e s s :=
  .kept (fun h => h) fun h => absurd hw h

@[simp] theorem push_forwarder (source line : String) :
    (s.push capacity source line).forwarder = s.forwarder := by
  unfold push
  repeat' split
  all_goals rfl

@[simp] theorem push_registered (source line : String) :
    (s.push capacity source line).registered = s.registered := by
  unfold push
  repeat' split
  all_goals rfl

@[simp] theorem push_id (source line : String) : (s.push capacity source line).id = s.id := by
  unfold push
  repeat' split
  all_goals rfl

@[simp] theorem forget_id : s.forget.id = s.id := by
  unfold forget
  split <;> rfl

theorem hasRoom_iff : s.hasRoom capacity = true ↔
    s.registered = true ∧ s.isStopped = false ∧ s.queue.length < capacity := by
  simp [hasRoom, and_assoc]

theorem push_changes {source line : String}
    (hw : e.wanted id s = if s.registered then event? s.plan source line else none) :
    Changes capacity id e s (s.push capacity source line) := by
  unfold push
  split
  · next hroom =>
    obtain ⟨hreg, hrun, hlt⟩ := hasRoom_iff.mp hroom
    rw [if_pos hreg] at hw
    split
    · next event he => exact .accepted (hw.trans he) hrun hlt
    · next he => exact .refl (hw.trans he)
  · next hroom =>
    refine .kept (fun h => h) fun hne => ?_
    rw [hw] at hne
    have hreg : s.registered = true := by
      by_contra hreg
      exact hne (if_neg hreg)
    cases hrun : s.isStopped with
    | true => exact .inr rfl
    | false =>
      left
      by_contra hlt
      exact hroom (hasRoom_iff.mpr ⟨hreg, hrun, by omega⟩)

theorem offer_changes {source line : String}
    (hw : e.wanted id s = if s.registered then event? s.plan source line else none) :
    Changes capacity id e s (s.offer capacity source line) := by
  have hpush : (s.push capacity source line).isStopped = s.isStopped := by
    rw [isStopped, isStopped, push_forwarder]
  unfold offer forget
  rw [hpush]
  cases hrun : s.isStopped with
  | false => simpa using push_changes hw
  | true =>
    have hsame : s.push capacity source line = s := by
      unfold push
      exact if_neg fun hroom => by simp [hasRoom, hrun] at hroom
    rw [hsame]
    exact .kept (by simp) fun _ => .inr hrun

theorem Changes.removed {cancelled : Bool} (hw : e.wanted id s = none) :
    Changes capacity id e s { s with registered := false, cancelled := cancelled } :=
  .kept (fun h => nomatch h) fun h => absurd hw h

theorem cancel_changes (hw : e.wanted id s = none) : Changes capacity id e s s.cancel := by
  unfold cancel
  split
  · exact .removed hw
  · exact .refl hw

theorem forget_changes (hw : e.wanted id s = none) : Changes capacity id e s s.forget := by
  unfold forget
  split
  · exact .removed hw
  · exact .refl hw

theorem take_changes (hw : e.wanted id s = none) : Changes capacity id e s s.take := by
  unfold take
  split
  · next hf hq => exact .taken hw hf hq
  · exact .refl hw

theorem answer_changes {ok : Bool} (ha : e.answers id = true) (hw : e.wanted id s = none) :
    Changes capacity id e s (s.answer ok) := by
  unfold answer
  split
  · next hf =>
    split
    · exact .answered ha hw hf
    · exact .stopped hw (by simp [isStopped, hf])
  · exact .refl hw

theorem notice_changes (hw : e.wanted id s = none) : Changes capacity id e s s.notice := by
  unfold notice
  split
  · next hf =>
    split
    · exact .stopped hw (by simp [isStopped, hf])
    · exact .refl hw
  · exact .refl hw

theorem act_changes (capacity id : Nat) (e : Event) (s : Subscription) :
    Changes capacity id e s (e.act capacity id s) := by
  -- an event for one id leaves the other subscriptions as they are
  have hone {i : Nat} {f : Subscription → Subscription} (hother : i ≠ id → e.wanted id s = none)
      (hf : i = id → Changes capacity id e s (f s)) :
      Changes capacity id e s (if i = id then f s else s) := by
    split
    · next hi => exact hf hi
    · next hi => exact .refl (hother hi)
  cases e with
  | subscribe | subscribePlan => exact .refl rfl
  | ingest source line => exact offer_changes rfl
  | halt => exact .kept (fun h => h) fun h => absurd rfl h
  | clear | shutdown => exact .removed rfl
  | offer i source line =>
    exact hone (fun hi => by simp [Event.wanted, hi])
      fun hi => push_changes (by simp [Event.wanted, hi])
  | unsubscribe i => exact hone (fun _ => rfl) fun _ => cancel_changes rfl
  | forget i => exact hone (fun _ => rfl) fun _ => forget_changes rfl
  | take i => exact hone (fun _ => rfl) fun _ => take_changes rfl
  | answer i ok =>
    exact hone (fun _ => rfl) fun hi => answer_changes (by simp [Event.answers, hi]) rfl
  | notice i => exact hone (fun _ => rfl) fun _ => notice_changes rfl

theorem Changes.id_eq (h : Changes capacity id e s s') : s'.id = s.id := by
  cases h <;> rfl

theorem Changes.plan_eq (h : Changes capacity id e s s') : s'.plan = s.plan := by
  cases h <;> rfl

/-- What has become of the accepted events. Those that are neither handed to the sink nor
in the queue were dropped with the queue when the forwarder stopped. -/
structure Accounted (capacity : Nat) (s : Subscription) : Prop where
  bounded : s.queue.length ≤ capacity
  inOrder : s.handed <+: s.accepted
  running : s.isStopped = false → s.handed ++ s.queue = s.accepted

theorem accounted_ofPlan (capacity id : Nat) (plan : Plan) (cancelled : Bool) :
    (ofPlan id plan cancelled).Accounted capacity :=
  ⟨Nat.zero_le _, List.prefix_rfl, fun _ => rfl⟩

theorem Changes.accounted (h : Changes capacity id e s s') (hs : s.Accounted capacity) :
    s'.Accounted capacity := by
  obtain ⟨hbounded, horder, hrunning⟩ := hs
  cases h with
  | kept => exact ⟨hbounded, horder, hrunning⟩
  | @accepted event hw hrun hroom =>
    refine ⟨?_, horder.trans (List.prefix_append _ _), fun _ => ?_⟩
    · rw [List.length_append, List.length_singleton]
      exact hroom
    · change s.handed ++ (s.queue ++ [event]) = s.accepted ++ [event]
      rw [← List.append_assoc, hrunning hrun]
  | @taken event rest hw hf hq =>
    have hall : (s.handed ++ [event]) ++ rest = s.accepted := by
      rw [List.append_assoc, List.singleton_append, ← hq]
      exact hrunning (by simp [isStopped, hf])
    refine ⟨?_, ⟨rest, hall⟩, fun _ => hall⟩
    rw [hq, List.length_cons] at hbounded
    exact Nat.le_of_succ_le hbounded
  | answered ha hw hf =>
    exact ⟨hbounded, horder, fun _ => hrunning (by simp [isStopped, hf])⟩
  | stopped => exact ⟨Nat.zero_le _, horder, fun h => by simp [stop, isStopped] at h⟩

/-- What a subscription can have handed over and accepted when its sink has given no
more than `answers` answers. -/
structure Answered (capacity answers : Nat) (s : Subscription) : Prop where
  idle : s.forwarder = .idle → s.handed.length ≤ answers
  handed : s.handed.length ≤ answers + 1
  accepted : s.accepted.length ≤ capacity + answers + 1

theorem answered_ofPlan (capacity answers id : Nat) (plan : Plan) (cancelled : Bool) :
    (ofPlan id plan cancelled).Answered capacity answers :=
  ⟨fun _ => Nat.zero_le _, Nat.zero_le _, Nat.zero_le _⟩

theorem Answered.mono {answers more : Nat} (h : s.Answered capacity answers)
    (hle : answers ≤ more) : s.Answered capacity more := by
  obtain ⟨hidle, hhanded, haccepted⟩ := h
  exact ⟨fun hf => Nat.le_trans (hidle hf) hle, by omega, by omega⟩

theorem Changes.answered_le {answers : Nat} (h : Changes capacity id e s s')
    (hs : s.Accounted capacity) (ha : s.Answered capacity answers) :
    s'.Answered capacity (answers + if e.answers id then 1 else 0) := by
  have hmore := Nat.le_add_right answers (if e.answers id then 1 else 0)
  obtain ⟨hidle, hhanded, haccepted⟩ := ha
  cases h with
  | kept => exact Answered.mono ⟨hidle, hhanded, haccepted⟩ hmore
  | @accepted event hw hrun hroom =>
    refine Answered.mono ⟨hidle, hhanded, ?_⟩ hmore
    have hlen := congrArg List.length (hs.running hrun)
    rw [List.length_append] at hlen
    rw [List.length_append, List.length_singleton]
    omega
  | @taken event rest hw hf hq =>
    refine Answered.mono ⟨fun h => (nomatch h), ?_, haccepted⟩ hmore
    rw [List.length_append, List.length_singleton]
    exact Nat.succ_le_succ (hidle hf)
  | answered ha hw hf =>
    rw [if_pos ha]
    exact ⟨fun _ => hhanded, Nat.le_succ_of_le hhanded, Nat.le_succ_of_le haccepted⟩
  | stopped => exact Answered.mono ⟨fun h => (nomatch h), hhanded, haccepted⟩ hmore

/-- What is accepted at an event is the one event that is wanted. -/
theorem Changes.accepted_eq (h : Changes capacity id e s s') :
    s'.accepted = s.accepted ∨ ∃ event, e.wanted id s = some event ∧
      s'.accepted = s.accepted ++ [event] := by
  cases h with
  | accepted hw => exact .inr ⟨_, hw, rfl⟩
  | _ => exact .inl rfl

/-- A wanted event is refused only for want of room or by a stopped forwarder. -/
theorem Changes.refused {event : String} (h : Changes capacity id e s s')
    (hw : e.wanted id s = some event) :
    s'.accepted = s.accepted ++ [event] ∨ capacity ≤ s.queue.length ∨ s.isStopped = true := by
  cases h with
  | kept hr hrefused => exact .inr (hrefused (by simp [hw]))
  | accepted hw' =>
    rw [hw] at hw'
    cases hw'
    exact .inl rfl
  | taken hw' | answered _ hw' | stopped hw' => simp [hw] at hw'

@[simp] theorem forget_accepted : s.forget.accepted = s.accepted := by
  unfold forget
  split <;> rfl

theorem forget_registered (hrun : s.isStopped = false) : s.forget.registered = s.registered := by
  rw [forget, hrun, if_neg Bool.false_ne_true]

/-- Bringing a line keeps a subscription in the registry while its forwarder runs. -/
theorem act_registered (he : e.brings = true) (hrun : s.isStopped = false) :
    (e.act capacity id s).registered = s.registered := by
  cases e with
  | ingest source line =>
    have hpush : (s.push capacity source line).isStopped = false := by
      rw [isStopped, push_forwarder]
      exact hrun
    exact (forget_registered hpush).trans (push_registered ..)
  | offer i source line =>
    change (if i = id then s.push capacity source line else s).registered = s.registered
    split
    · exact push_registered ..
    · rfl
  | forget i =>
    change (if i = id then s.forget else s).registered = s.registered
    split
    · exact forget_registered hrun
    · rfl
  | _ => cases he

/-- A line is accepted when it lengthens the sequence of the accepted events. -/
theorem accepts_iff (source line : String) : s.accepts capacity source line = true ↔
    (s.push capacity source line).accepted ≠ s.accepted := by
  unfold accepts push
  cases s.hasRoom capacity with
  | false => simp
  | true => cases event? s.plan source line <;> simp

end Subscription

end LogQuery.Live
