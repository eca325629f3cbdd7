import LogQuery.Live.Broadcaster

/-!
# Sinks and what they keep

A sink answers to each event it is handed, sooner or later or never. `settle` lets
the forwarders go on until each of them waits for an event or for an answer that
never comes.
-/

namespace LogQuery.Live

/-- A sink that keeps all events, one that never answers, and one that keeps so
many events and then fails. -/
inductive Sink
  | prompt
  | stuck
  | failing (after : Nat)
deriving DecidableEq, Repr

namespace Sink

/-- The answer to an event when `earlier` ones came before it. -/
def answer? (earlier : Nat) : Sink → Option Bool
  | prompt => some true
  | stuck => none
  | failing after => some (decide (earlier < after))

/-- The events that are kept of those handed over. -/
def kept (handed : List String) : Sink → List String
  | prompt => handed
  | stuck => []
  | failing after => handed.take after

end Sink

namespace Broadcaster

/-- The next thing a forwarder with its sink can do. -/
def nextEvent? (s : Subscription) (sink : Sink) : Option Event :=
  match s.forwarder with
  | .stopped => none
  | .delivering => (sink.answer? (s.handed.length - 1)).map (.answer s.id)
  | .idle =>
    if s.cancelled then some (.notice s.id)
    else if s.queue.isEmpty then none
    else some (.take s.id)

/-- Lets one forwarder do so many things. -/
def advance (sink : Sink) (id : Nat) : (count : Nat) → Broadcaster → Broadcaster
  | 0, b => b
  | n + 1, b =>
    match (b.subscription? id).bind fun s => nextEvent? s sink with
    | some e => advance sink id n (b.step e)
    | none => b

/-- Lets all forwarders go on; each event takes two steps, and one more is to stop. -/
def settle (b : Broadcaster) (sinks : Nat → Sink) : Broadcaster :=
  b.subscriptions.foldl (fun b s => advance (sinks s.id) s.id (2 * s.queue.length + 2) b) b

end Broadcaster

end LogQuery.Live
