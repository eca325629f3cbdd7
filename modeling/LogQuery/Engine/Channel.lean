/-!
# Bounded channels

A channel holds items between one that sends and one that receives. A sender
waits while it is full and notices when the receiver has closed it. There is a
bound on how much a channel can hold, and the same bound on the permits of a
semaphore; whoever asks for more gets neither.
-/

namespace LogQuery.Engine

/-- How many items a channel can hold or permits a semaphore can have, at most. -/
def maxCapacity : Nat := Nat.pow 2 61 - 1

/-- What a channel can hold or a semaphore can have. -/
abbrev Capacity := Fin (maxCapacity + 1)

/-- A number, or the greatest capacity if it is greater. -/
def Capacity.upTo (n : Nat) : Capacity := ⟨min n maxCapacity, by omega⟩

/-- `received` keeps what the receiver has taken out, in order. -/
structure Channel (α : Type) where
  capacity : Nat
  queue : List α
  received : List α
  closed : Bool
deriving Repr

/-- What comes of sending an item. -/
inductive Sent (α : Type)
  | accepted (channel : Channel α)
  | full
  | refused
deriving Repr

namespace Channel

variable {α : Type}

/-- An empty channel; it has room for one item at least. -/
def ofCapacity (n : Capacity) : Channel α := ⟨max 1 n.val, [], [], false⟩

def send (c : Channel α) (a : α) : Sent α :=
  if c.closed then .refused
  else if c.queue.length < c.capacity then .accepted { c with queue := c.queue ++ [a] }
  else .full

/-- Takes out the first item, if there is one. -/
def receive (c : Channel α) : Channel α :=
  match c.closed, c.queue with
  | false, a :: rest => { c with queue := rest, received := c.received ++ [a] }
  | _, _ => c

def close (c : Channel α) : Channel α := { c with closed := true }

/-- All items sent so far. -/
def items (c : Channel α) : List α := c.received ++ c.queue

/-- An item is accepted by an open channel and stands last. -/
structure Accepted (c : Channel α) (a : α) (d : Channel α) : Prop where
  wasOpen : c.closed = false
  isOpen : d.closed = false
  capacity : d.capacity = c.capacity
  items : d.items = c.items ++ [a]
  length : d.queue.length = c.queue.length + 1

theorem send_accepted {c d : Channel α} {a : α} (h : c.send a = .accepted d) : Accepted c a d := by
  unfold send at h
  split at h
  · cases h
  · split at h
    · cases h
      exact ⟨by simp_all, by simp_all, rfl, by simp [items], by simp⟩
    · cases h

theorem send_full {c : Channel α} {a : α} (h : c.send a = .full) :
    c.closed = false ∧ c.capacity ≤ c.queue.length := by
  unfold send at h
  split at h
  · cases h
  · split at h
    · cases h
    · exact ⟨by simp_all, by omega⟩

theorem send_refused {c : Channel α} {a : α} (h : c.send a = .refused) : c.closed = true := by
  unfold send at h
  split at h
  · assumption
  · split at h <;> cases h

@[simp] theorem receive_items (c : Channel α) : c.receive.items = c.items := by
  unfold receive
  split <;> simp_all [items]

@[simp] theorem receive_closed (c : Channel α) : c.receive.closed = c.closed := by
  unfold receive
  split <;> simp_all

@[simp] theorem receive_capacity (c : Channel α) : c.receive.capacity = c.capacity := by
  unfold receive
  split <;> rfl

theorem receive_queue {c : Channel α} (h : c.closed = false) : c.receive.queue = c.queue.tail := by
  cases hq : c.queue <;> simp [receive, h, hq]

@[simp] theorem close_items (c : Channel α) : c.close.items = c.items := rfl

end Channel

end LogQuery.Engine
