import LogQuery.Proofs.Live.Broadcaster

/-!
# Subscriptions do not affect each other

What becomes of a subscription depends on the lines that are brought, on the end of
the broadcaster and on the events of its own id. So nothing changes for it when all
other subscriptions are deleted from a run, with all that they and their sinks do.

Two runs are compared here that are of different length: `SameFor` relates their
states step by step, where a deleted event is no step of the second run.
-/

namespace LogQuery.Live

/-- Whether an event is for everybody or for the subscription of an id. -/
def Event.concerns (id : Nat) : Event → Bool
  | .ingest _ _ | .shutdown | .halt | .clear => true
  | .subscribe i _ | .subscribePlan i _ | .unsubscribe i | .offer i _ _ | .forget i | .take i
  | .answer i _ | .notice i => i == id

/-- Whether after an event no forwarder is to go on. -/
def Event.stopsAll : Event → Bool
  | .shutdown | .halt => true
  | _ => false

section Unconcerned

variable {e : Event} {id : Nat}

theorem Event.act_of_unconcerned (h : e.concerns id = false) (capacity : Nat) (s : Subscription) :
    e.act capacity id s = s := by
  cases e with
  | ingest | shutdown | halt | clear => cases h
  | subscribe | subscribePlan => rfl
  | _ => exact if_neg (by simpa [concerns] using h)

theorem Event.concerns_of_asked? {i : Nat} {plan : Plan} (h : e.asked? = some (i, plan)) :
    e.concerns id = (i == id) := by
  cases e with
  | subscribe j text =>
    obtain ⟨_, -, hi⟩ := Option.map_eq_some_iff.mp h
    cases hi
    rfl
  | subscribePlan =>
    cases h
    rfl
  | _ => cases h

theorem Event.plan?_of_unconcerned (h : e.concerns id = false) : e.plan? id = none := by
  refine Option.bind_eq_none_iff.mpr fun (i, plan) hasked => if_neg ?_
  rw [concerns_of_asked? hasked] at h
  simpa using h

theorem Event.stopsAll_of_unconcerned (h : e.concerns id = false) : e.stopsAll = false := by
  cases e with
  | shutdown | halt => cases h
  | _ => rfl

theorem Event.line?_of_unconcerned (h : e.concerns id = false) : e.line? id = none := by
  cases e with
  | ingest => cases h
  | offer => exact if_neg (by simpa [concerns] using h)
  | _ => rfl

end Unconcerned

namespace Broadcaster

variable {b b' : Broadcaster} {id : Nat} {e : Event}

theorem step_down (b : Broadcaster) (e : Event) : (b.step e).down = (b.down || e.stopsAll) := by
  have hplan (i : Nat) (plan : Plan) : (b.subscribePlan i plan).down = b.down := by
    unfold subscribePlan
    split <;> rfl
  cases e with
  | subscribe i text =>
    rw [step, subscribe]
    cases Plan.ofQuery text with
    | error _ => exact (Bool.or_false _).symm
    | ok plan => exact (hplan i plan).trans (Bool.or_false _).symm
  | subscribePlan i plan => exact (hplan i plan).trans (Bool.or_false _).symm
  | shutdown | halt => exact (Bool.or_true _).symm
  | _ => exact (Bool.or_false _).symm

/-- Two broadcasters are the same as far as the subscription of an id can tell. -/
structure SameFor (id : Nat) (b b' : Broadcaster) : Prop where
  capacity : b.capacity = b'.capacity
  down : b.down = b'.down
  found : b.subscription? id = b'.subscription? id

theorem SameFor.step (h : SameFor id b b') (e : Event) : SameFor id (b.step e) (b'.step e) where
  capacity := by rw [step_capacity, step_capacity, h.capacity]
  down := by rw [step_down, step_down, h.down]
  found := by rw [subscription?_step, subscription?_step, h.capacity, h.down, h.found]

/-- What another subscription or its sink does cannot be told. -/
theorem SameFor.skip (h : SameFor id b b') (he : e.concerns id = false) :
    SameFor id b (b'.step e) where
  capacity := by rw [step_capacity, h.capacity]
  down := by rw [step_down, Event.stopsAll_of_unconcerned he, Bool.or_false, h.down]
  found := by
    have hact : e.act b'.capacity id = fun s => s := funext (Event.act_of_unconcerned he _)
    rw [subscription?_step, hact, Event.plan?_of_unconcerned he, h.found]
    cases b'.subscription? id <;> rfl

theorem SameFor.run (h : SameFor id b b') (events : List Event) :
    SameFor id (b.run (events.filter (·.concerns id))) (b'.run events) := by
  induction events generalizing b b' with
  | nil => exact h
  | cons e events ih =>
    cases he : e.concerns id with
    | true =>
      rw [List.filter_cons_of_pos he]
      exact ih (h.step e)
    | false =>
      rw [List.filter_cons_of_neg (by simp [he])]
      exact ih (h.skip he)

/-- Whether the subscription of an id accepts a line now. -/
def acceptsFor (b : Broadcaster) (id : Nat) (source line : String) : Bool :=
  (b.subscription? id).any (·.accepts b.capacity source line)

theorem SameFor.acceptsFor_eq (h : SameFor id b b') : b.acceptsFor id = b'.acceptsFor id := by
  funext source line
  rw [acceptsFor, acceptsFor, h.capacity, h.found]

/-- The lines that are brought to the subscription of an id during a run, each with its
source and with whether it is accepted. -/
def verdicts (id : Nat) (b : Broadcaster) : List Event → List (String × String × Bool)
  | [] => []
  | e :: events =>
    ((e.line? id).map fun (source, line) => (source, line, b.acceptsFor id source line)).toList ++
      (b.step e).verdicts id events

theorem SameFor.verdicts_eq (h : SameFor id b b') (events : List Event) :
    b.verdicts id (events.filter (·.concerns id)) = b'.verdicts id events := by
  induction events generalizing b b' with
  | nil => rfl
  | cons e events ih =>
    cases he : e.concerns id with
    | true =>
      rw [List.filter_cons_of_pos he, verdicts, verdicts, h.acceptsFor_eq, ih (h.step e)]
    | false =>
      rw [List.filter_cons_of_neg (by simp [he]), verdicts, Event.line?_of_unconcerned he]
      exact ih (h.skip he)

/-- Events that concern one subscription add no other. -/
theorem ids_of_concerns (n : Nat) {events : List Event} (h : ∀ e ∈ events, e.concerns id = true) :
    ∀ s ∈ ((ofCapacity n).run events).subscriptions, s.id = id := by
  induction events using List.reverseRecOn with
  | nil => exact fun s hs => nomatch hs
  | append_singleton events e ih =>
    obtain ⟨hevents, he⟩ := List.forall_mem_append.mp h
    replace he : e.concerns id = true := he e (List.mem_singleton_self e)
    have hacted : ∀ s ∈ ((ofCapacity n).run events).subscriptions.map fun s =>
        e.act ((ofCapacity n).run events).capacity s.id s, s.id = id := by
      intro s hs
      obtain ⟨t, ht, rfl⟩ := List.mem_map.mp hs
      rw [act_id]
      exact ih hevents t ht
    rw [run_append]
    rcases step_subscriptions ((ofCapacity n).run events) e with ⟨hsame, -⟩ | ⟨i, plan, hasked, -, hmore⟩
    · rw [hsame]
      exact hacted
    · rw [hmore]
      refine List.forall_mem_append.mpr ⟨hacted, fun s hs => ?_⟩
      rw [List.mem_singleton.mp hs]
      rw [Event.concerns_of_asked? hasked] at he
      exact eq_of_beq he

/-- When every other subscription is deleted from a run with all its steps and the answers
of its sink, only one is left, and for it nothing has changed: it accepts the same lines,
and its sink has been handed the same events. -/
theorem subscription_isolated (n id : Nat) (events : List Event) :
    let alone := events.filter (·.concerns id)
    (∀ s ∈ ((ofCapacity n).run alone).subscriptions, s.id = id) ∧
      (ofCapacity n).verdicts id alone = (ofCapacity n).verdicts id events ∧
      ((ofCapacity n).run alone).handed id = ((ofCapacity n).run events).handed id ∧
      ((ofCapacity n).run alone).subscription? id = ((ofCapacity n).run events).subscription? id := by
  intro alone
  have hsame : SameFor id (ofCapacity n) (ofCapacity n) := ⟨rfl, rfl, rfl⟩
  have hfound : ((ofCapacity n).run alone).subscription? id = _ := (hsame.run events).found
  refine ⟨ids_of_concerns n fun e he => (List.mem_filter.mp he).2, hsame.verdicts_eq events, ?_, hfound⟩
  rw [handed, handed, hfound]

end Broadcaster

end LogQuery.Live
