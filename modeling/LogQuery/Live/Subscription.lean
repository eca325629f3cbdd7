import LogQuery.Record.Output

/-!
# Subscriptions

A subscription holds the events of the lines that match its plan in a bounded
queue, until its forwarder hands them to its sink one by one. The forwarder hands
over the next event only when the sink has answered to the last one, and it stops
at the first answer that is a failure. So a slow sink misses events of its own and
keeps nobody waiting.
-/

namespace LogQuery.Live

/-- What a forwarder is at: it waits for an event, it waits for the answer of its
sink, or it has stopped and its queue is gone. -/
inductive Forwarder
  | idle
  | delivering
  | stopped
deriving DecidableEq, Repr

/-- `registered` says whether lines are offered to the subscription, `cancelled`
that its forwarder may stop. All events ever accepted and all ever handed to the
sink are kept, in order. -/
structure Subscription where
  id : Nat
  plan : Plan
  registered : Bool
  cancelled : Bool
  forwarder : Forwarder
  queue : List String
  accepted : List String
  handed : List String
deriving Repr

/-- The event of a line for those who subscribe with a plan, if it is one for them. -/
def event? (plan : Plan) (source line : String) : Option String :=
  if plan.readsSource source then
    (plan.matchLine? (Text.encode line)).map fun record =>
      Record.event (Record.output plan (Text.encode line) record)
  else none

namespace Subscription

/-- A new subscription; it may be cancelled from the start. -/
def ofPlan (id : Nat) (plan : Plan) (cancelled : Bool) : Subscription :=
  ⟨id, plan, true, cancelled, .idle, [], [], []⟩

def isStopped (s : Subscription) : Bool := s.forwarder == .stopped

/-- Whether an event would be accepted now. -/
def hasRoom (capacity : Nat) (s : Subscription) : Bool :=
  s.registered && !s.isStopped && s.queue.length < capacity

/-- Whether a line is accepted now. -/
def accepts (capacity : Nat) (source line : String) (s : Subscription) : Bool :=
  s.hasRoom capacity && (event? s.plan source line).isSome

/-- Puts the event of a line in the queue, if there is one and there is room. -/
def push (capacity : Nat) (source line : String) (s : Subscription) : Subscription :=
  if s.hasRoom capacity then
    match event? s.plan source line with
    | some e => { s with queue := s.queue ++ [e], accepted := s.accepted ++ [e] }
    | none => s
  else s

/-- Takes the subscription out of the registry. -/
def remove (s : Subscription) : Subscription := { s with registered := false }

/-- Takes the subscription out of the registry if its forwarder has stopped. -/
def forget (s : Subscription) : Subscription := if s.isStopped then s.remove else s

/-- Offers a line. A subscription whose forwarder has stopped is taken out of the registry. -/
def offer (capacity : Nat) (source line : String) (s : Subscription) : Subscription :=
  (s.push capacity source line).forget

/-- Lets the forwarder stop. -/
def halt (s : Subscription) : Subscription := { s with cancelled := true }

/-- Takes the subscription out of the registry and lets its forwarder stop. -/
def cancel (s : Subscription) : Subscription := if s.registered then s.remove.halt else s

/-- The forwarder hands the first event of the queue to the sink. -/
def take (s : Subscription) : Subscription :=
  match s.forwarder, s.queue with
  | .idle, e :: rest =>
    { s with forwarder := .delivering, queue := rest, handed := s.handed ++ [e] }
  | _, _ => s

/-- The forwarder stops. -/
def stop (s : Subscription) : Subscription := { s with forwarder := .stopped, queue := [] }

/-- The sink answers whether it has taken the event. -/
def answer (ok : Bool) (s : Subscription) : Subscription :=
  match s.forwarder with
  | .delivering => if ok then { s with forwarder := .idle } else s.stop
  | _ => s

/-- A forwarder that waits for an event notices that it may stop. -/
def notice (s : Subscription) : Subscription :=
  match s.forwarder with
  | .idle => if s.cancelled then s.stop else s
  | _ => s

end Subscription

end LogQuery.Live
