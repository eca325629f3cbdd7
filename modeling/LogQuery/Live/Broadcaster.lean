import LogQuery.Compile.Query
import LogQuery.Live.Subscription

/-!
# The broadcaster of live events

Fresh lines are offered to every registered subscription. What happens is a list
of events in any order: somebody subscribes, cancels or brings a line, and the
forwarders and sinks go on. They may do so while a line is being brought or while
the broadcaster shuts down, so the parts of these two are events as well.
-/

namespace LogQuery.Live

/-- Each subscription has its own queue of the same capacity. Subscriptions are
never forgotten; `down` says that the broadcaster has shut down. -/
structure Broadcaster where
  capacity : Nat
  down : Bool
  subscriptions : List Subscription
deriving Repr

/-- What may happen to a broadcaster. Whoever subscribes brings an id of their own.
`offer` and `forget` are what bringing a line does to one subscription, `halt` and
`clear` the two parts of shutting down. -/
inductive Event
  | subscribe (id : Nat) (text : String)
  | subscribePlan (id : Nat) (plan : Plan)
  | unsubscribe (id : Nat)
  | ingest (source line : String)
  | offer (id : Nat) (source line : String)
  | forget (id : Nat)
  | shutdown
  | halt
  | clear
  | take (id : Nat)
  | answer (id : Nat) (ok : Bool)
  | notice (id : Nat)
deriving Repr

namespace Broadcaster

/-- How many events a queue holds by default. -/
def defaultCapacity : Nat := 1024

/-- A broadcaster without subscriptions; a queue holds one event at least. Numbers beyond
what a channel can hold are left out: with one of them nobody can subscribe. -/
def ofCapacity (n : Nat) : Broadcaster := ⟨max 1 n, false, []⟩

/-- Changes the subscription of an id. -/
def update (b : Broadcaster) (id : Nat) (f : Subscription → Subscription) : Broadcaster :=
  { b with subscriptions := b.subscriptions.map fun s => if s.id == id then f s else s }

def subscription? (b : Broadcaster) (id : Nat) : Option Subscription :=
  b.subscriptions.find? fun s => s.id == id

/-- Whether an id is in the registry. -/
def isRegistered (b : Broadcaster) (id : Nat) : Bool :=
  b.subscriptions.any fun s => s.id == id && s.registered

/-- How many subscriptions are registered. -/
def size (b : Broadcaster) : Nat := b.subscriptions.countP (·.registered)

def isEmpty (b : Broadcaster) : Bool := b.size == 0

/-- Registers a subscription; an id is used once. After the broadcaster has shut
down the forwarder may stop at once. -/
def subscribePlan (b : Broadcaster) (id : Nat) (plan : Plan) : Broadcaster :=
  if (b.subscription? id).isSome then b
  else { b with subscriptions := b.subscriptions ++ [.ofPlan id plan b.down] }

/-- Registers a subscription for a query. -/
def subscribe (b : Broadcaster) (id : Nat) (text : String) : Except Compile.Error Broadcaster :=
  (Plan.ofQuery text).map (b.subscribePlan id)

/-- Takes a subscription out of the registry. -/
def unsubscribe (b : Broadcaster) (id : Nat) : Broadcaster := b.update id .cancel

/-- How many subscriptions accept a line. -/
def accepting (b : Broadcaster) (source line : String) : Nat :=
  b.subscriptions.countP (·.accepts b.capacity source line)

/-- Offers a line to every subscription. -/
def ingest (b : Broadcaster) (source line : String) : Broadcaster :=
  { b with subscriptions := b.subscriptions.map (·.offer b.capacity source line) }

/-- Lets every forwarder stop. -/
def halt (b : Broadcaster) : Broadcaster :=
  { b with down := true, subscriptions := b.subscriptions.map .halt }

/-- Empties the registry. -/
def clear (b : Broadcaster) : Broadcaster :=
  { b with subscriptions := b.subscriptions.map .remove }

/-- Empties the registry; no forwarder is to go on. -/
def shutdown (b : Broadcaster) : Broadcaster := b.halt.clear

/-- The broadcaster after an event. A query that does not compile changes nothing. -/
def step (b : Broadcaster) : Event → Broadcaster
  | .subscribe id text => (b.subscribe id text).toOption.getD b
  | .subscribePlan id plan => b.subscribePlan id plan
  | .unsubscribe id => b.unsubscribe id
  | .ingest source line => b.ingest source line
  | .offer id source line => b.update id (.push b.capacity source line)
  | .forget id => b.update id .forget
  | .shutdown => b.shutdown
  | .halt => b.halt
  | .clear => b.clear
  | .take id => b.update id .take
  | .answer id ok => b.update id (.answer ok)
  | .notice id => b.update id .notice

/-- A broadcaster after some events. -/
def run (b : Broadcaster) (events : List Event) : Broadcaster := events.foldl step b

/-- The events handed to the sink of a subscription. -/
def handed (b : Broadcaster) (id : Nat) : List String :=
  (b.subscription? id).elim [] (·.handed)

end Broadcaster

end LogQuery.Live
