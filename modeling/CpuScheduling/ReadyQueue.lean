import CpuScheduling.Units
/-!
The ready queue: first in, first out, of bounded length. A full queue refuses and stays as it is.
-/
namespace CpuScheduling

/-- The length of a queue for which no other is chosen. -/
def defaultQueueCapacity : Nat := 500

structure ReadyQueue where
  /-- The queued slots, front first. -/
  slots : List Nat
  capacity : Nat
  length_le : slots.length ≤ capacity
deriving DecidableEq

/-- The refusal of a full queue. -/
structure QueueOverflow where
  slot : Nat
  capacity : Nat
deriving DecidableEq

def QueueOverflow.message (e : QueueOverflow) : String :=
  "ready queue overflow: capacity " ++ e.capacity.repr ++ " reached, dropped process slot " ++
    e.slot.repr

namespace ReadyQueue

def empty (capacity : Nat) : ReadyQueue := ⟨[], capacity, Nat.zero_le _⟩

def length (q : ReadyQueue) : Nat := q.slots.length

def isEmpty (q : ReadyQueue) : Bool := q.slots.isEmpty

/-- A slot at the rear, unless the queue is full. -/
def enqueue (q : ReadyQueue) (slot : Nat) : Except QueueOverflow ReadyQueue :=
  if h : q.slots.length < q.capacity then
    .ok { q with slots := q.slots ++ [slot], length_le := by rw [List.length_append]; exact h }
  else .error ⟨slot, q.capacity⟩

theorem slots_enqueue {q longer : ReadyQueue} {slot : Nat} (h : q.enqueue slot = .ok longer) :
    longer.slots = q.slots ++ [slot] ∧ longer.capacity = q.capacity := by
  unfold enqueue at h
  split at h
  · cases h; exact ⟨rfl, rfl⟩
  · cases h

theorem enqueue_eq_error_iff {q : ReadyQueue} {slot : Nat} {e : QueueOverflow} :
    q.enqueue slot = .error e ↔ q.length = q.capacity ∧ e = ⟨slot, q.capacity⟩ := by
  have := q.length_le
  unfold enqueue length
  split
  · exact ⟨nofun, fun h => absurd h.1 (by omega)⟩
  · exact ⟨fun h => ⟨by omega, (Except.error.inj h).symm⟩, fun h => by rw [h.2]⟩

/-- The slot at the front, if there is one, and the queue without it. -/
def dequeue : ReadyQueue → Option Nat × ReadyQueue
  | ⟨[], capacity, h⟩ => (none, ⟨[], capacity, h⟩)
  | ⟨slot :: slots, capacity, h⟩ =>
    (some slot, ⟨slots, capacity, Nat.le_of_succ_le (by simpa using h)⟩)

theorem fst_dequeue (q : ReadyQueue) : q.dequeue.1 = q.slots.head? := by
  rcases q with ⟨_ | _, _, _⟩ <;> rfl

theorem slots_dequeue (q : ReadyQueue) : q.dequeue.2.slots = q.slots.tail := by
  rcases q with ⟨_ | _, _, _⟩ <;> rfl

theorem capacity_dequeue (q : ReadyQueue) : q.dequeue.2.capacity = q.capacity := by
  rcases q with ⟨_ | _, _, _⟩ <;> rfl

/-- Several slots in turn: how many were refused, and the queue that results. The queue takes the
first ones, as many as it has room for. -/
def enqueueAll (q : ReadyQueue) (slots : List Nat) : Nat × ReadyQueue :=
  let room := q.capacity - q.length
  (slots.length - room,
    { q with
      slots := q.slots ++ slots.take room
      length_le := by
        have := q.length_le
        rw [List.length_append, List.length_take]
        simp only [room, length]
        omega })

theorem enqueueAll_nil (q : ReadyQueue) : q.enqueueAll [] = (0, q) := by
  simp [enqueueAll]

theorem enqueueAll_cons_of_enqueue_eq_ok {q longer : ReadyQueue} {slot : Nat} (slots : List Nat)
    (h : q.enqueue slot = .ok longer) : q.enqueueAll (slot :: slots) = longer.enqueueAll slots := by
  unfold enqueue at h
  split at h
  next room =>
    cases h
    obtain ⟨n, hn⟩ : ∃ n, q.capacity - q.slots.length = n + 1 :=
      ⟨q.capacity - q.slots.length - 1, by omega⟩
    have : q.capacity - (q.slots.length + 1) = n := by omega
    simp [enqueueAll, length, hn, this]
  next => cases h

theorem enqueueAll_cons_of_enqueue_eq_error {q : ReadyQueue} {slot : Nat} {e : QueueOverflow}
    (slots : List Nat) (h : q.enqueue slot = .error e) :
    q.enqueueAll (slot :: slots) = ((q.enqueueAll slots).1 + 1, q) := by
  have full : q.capacity - q.length = 0 := by
    have := (enqueue_eq_error_iff.1 h).1
    omega
  simp [enqueueAll, full]

/-- Up to `n` slots from the front. -/
def drain (q : ReadyQueue) (n : Nat) : List Nat × ReadyQueue :=
  (q.slots.take n, ⟨q.slots.drop n, q.capacity, by
    have := q.length_le
    rw [List.length_drop]
    omega⟩)

end ReadyQueue
end CpuScheduling
