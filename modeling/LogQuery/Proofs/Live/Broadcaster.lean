import Mathlib.Data.List.Induction
import LogQuery.Proofs.Live.Subscription

/-!
# Runs of the broadcaster

A subscription sees a run as a list of changes of its own, from the step that adds it.
So what `Subscription.Changes` preserves holds of every subscription after any events.
-/

namespace LogQuery.Live.Broadcaster

open Subscription (Changes Accounted Answered)

variable {b : Broadcaster} {s : Subscription} {e : Event} {id : Nat}

/-- An event changes every subscription by `Event.act`, and adds one if it asks for one
with a new id. -/
theorem step_subscriptions (b : Broadcaster) (e : Event) :
    let acted := b.subscriptions.map fun s => e.act b.capacity s.id s
    ((b.step e).subscriptions = acted ∧
      ∀ id plan, e.asked? = some (id, plan) → b.subscription? id ≠ none) ∨
      ∃ id plan, e.asked? = some (id, plan) ∧ b.subscription? id = none ∧
        (b.step e).subscriptions = acted ++ [.ofPlan id plan b.down] := by
  intro acted
  have hupdate (i : Nat) (f : Subscription → Subscription)
      (hf : ∀ s : Subscription, (if i = s.id then f s else s) = e.act b.capacity s.id s) :
      (b.update i f).subscriptions = acted := by
    refine List.map_congr_left fun s _ => ?_
    rw [← hf s]
    by_cases hi : i = s.id
    · simp [hi]
    · simp [hi, Ne.symm hi]
  have hplan (i : Nat) (p : Plan) (hacted : acted = b.subscriptions)
      (hasked : e.asked? = some (i, p)) :
      ((b.subscribePlan i p).subscriptions = acted ∧
        ∀ id plan, e.asked? = some (id, plan) → b.subscription? id ≠ none) ∨
        ∃ id plan, e.asked? = some (id, plan) ∧ b.subscription? id = none ∧
          (b.subscribePlan i p).subscriptions = acted ++ [.ofPlan id plan b.down] := by
    rw [subscribePlan, hacted]
    split
    · next hused =>
      refine .inl ⟨rfl, fun id plan h => ?_⟩
      cases hasked.symm.trans h
      exact Option.isSome_iff_ne_none.mp hused
    · next hnew => exact .inr ⟨i, p, hasked, by simpa using hnew, rfl⟩
  cases e with
  | subscribe i text =>
    have hacted : acted = b.subscriptions := List.map_id _
    rw [step, subscribe]
    cases hq : Plan.ofQuery text with
    | error _ => exact .inl ⟨hacted.symm, by simp [Event.asked?, hq, Except.toOption]⟩
    | ok plan => exact hplan i plan hacted (by simp [Event.asked?, hq, Except.toOption])
  | subscribePlan i plan => exact hplan i plan (List.map_id _) rfl
  | ingest | halt | clear => exact .inl ⟨rfl, nofun⟩
  | shutdown => exact .inl ⟨List.map_map .., nofun⟩
  | unsubscribe | offer | forget | take | answer | notice =>
    exact .inl ⟨hupdate _ _ fun _ => rfl, nofun⟩

theorem act_id (capacity i : Nat) : (e.act capacity i s).id = s.id :=
  (Subscription.act_changes capacity i e s).id_eq

theorem find?_acted (capacity id : Nat) (e : Event) (subscriptions : List Subscription) :
    (subscriptions.map fun s => e.act capacity s.id s).find? (·.id == id) =
      (subscriptions.find? (·.id == id)).map (e.act capacity id) := by
  rw [List.find?_map]
  have hid : ((·.id == id) ∘ fun s => e.act capacity s.id s) = (fun s : Subscription => s.id == id) :=
    funext fun s => by simp [act_id]
  rw [hid]
  cases hfound : subscriptions.find? (·.id == id) with
  | none => rfl
  | some s =>
    have hs : s.id = id := by simpa using List.find?_some hfound
    rw [Option.map_some, Option.map_some, hs]

/-- What an event makes of the subscription of an id, if there is one: it changes it by
`Event.act`. Otherwise the event may add it. -/
theorem subscription?_step (b : Broadcaster) (e : Event) (id : Nat) :
    (b.step e).subscription? id = ((b.subscription? id).map (e.act b.capacity id)).or
      ((e.plan? id).map fun plan => .ofPlan id plan b.down) := by
  have hacted := find?_acted b.capacity id e b.subscriptions
  rcases step_subscriptions b e with ⟨h, hused⟩ | ⟨i, plan, hasked, hnew, h⟩
  · rw [subscription?, h, hacted]
    cases hfound : b.subscription? id with
    | some s => rw [← subscription?, hfound, Option.map_some, Option.some_or]
    | none =>
      have hplan : e.plan? id = none := by
        refine Option.bind_eq_none_iff.mpr fun (i, plan) hasked => if_neg ?_
        rintro rfl
        exact hused i plan hasked hfound
      rw [← subscription?, hfound, hplan]
      rfl
  · rw [subscription?, h, List.find?_append, hacted, ← subscription?]
    cases hfound : b.subscription? id with
    | some s => rfl
    | none => by_cases hi : i = id <;> simp [Event.plan?, hasked, Subscription.ofPlan, hi]

/-- What an event has made of a subscription. -/
theorem subscription?_step_of_some (e : Event) (h : b.subscription? id = some s) :
    (b.step e).subscription? id = some (e.act b.capacity id s) := by
  rw [subscription?_step, h]
  rfl

theorem step_capacity (b : Broadcaster) (e : Event) : (b.step e).capacity = b.capacity := by
  have hplan (i : Nat) (plan : Plan) : (b.subscribePlan i plan).capacity = b.capacity := by
    unfold subscribePlan
    split <;> rfl
  cases e with
  | subscribe i text =>
    rw [step, subscribe]
    cases Plan.ofQuery text with
    | error _ => rfl
    | ok plan => exact hplan i plan
  | subscribePlan i plan => exact hplan i plan
  | _ => rfl

theorem run_append (b : Broadcaster) (events : List Event) (e : Event) :
    b.run (events ++ [e]) = (b.run events).step e :=
  List.foldl_append ..

theorem run_capacity (b : Broadcaster) (events : List Event) :
    (b.run events).capacity = b.capacity := by
  induction events using List.reverseRecOn with
  | nil => rfl
  | append_singleton events e ih => rw [run_append, step_capacity, ih]

/-- What holds of a new subscription and is preserved by every change holds after any events. -/
theorem run_induction {n id : Nat} {P : List Event → Subscription → Prop}
    (hnew : ∀ events plan cancelled, P events (.ofPlan id plan cancelled))
    (hstep : ∀ events e s s', ((ofCapacity n).run events).subscription? id = some s →
      Changes (max 1 n) id e s s' → P events s → P (events ++ [e]) s') (events : List Event) :
    ∀ s, ((ofCapacity n).run events).subscription? id = some s → P events s := by
  induction events using List.reverseRecOn with
  | nil => exact fun s h => nomatch h
  | append_singleton events e ih =>
    intro s' hs'
    rw [run_append] at hs'
    rw [subscription?_step] at hs'
    cases hs : ((ofCapacity n).run events).subscription? id with
    | some s =>
      rw [hs, run_capacity] at hs'
      cases hs'
      exact hstep events e s _ hs (Subscription.act_changes ..) (ih s hs)
    | none =>
      rw [hs, Option.map_none, Option.none_or, Option.map_eq_some_iff] at hs'
      obtain ⟨plan, -, rfl⟩ := hs'
      exact hnew ..

end LogQuery.Live.Broadcaster
