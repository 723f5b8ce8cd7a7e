import CpuScheduling.Simulation
import Mathlib.Logic.Function.Basic
/-!
Views of a machine: the slot that each processor holds, where each process stands, and the queued
slots. Every small move is described by what it does to these views and by what it leaves alone, so
that no later proof opens a move.
-/
namespace CpuScheduling

/-- A policy apart from the slots in its queue, which no tick changes. -/
def Policy.rule : Policy → Policy
  | .roundRobin quantum queue => .roundRobin quantum (.empty queue.capacity)
  | policy => policy

theorem Policy.algorithm_start (quantum : Nat) (algorithm : Algorithm) :
    (Policy.start quantum algorithm).algorithm = algorithm := by
  cases algorithm <;> rfl

theorem Policy.algorithm_rule (policy : Policy) : policy.rule.algorithm = policy.algorithm := by
  cases policy <;> rfl

theorem Policy.queue?_eq_none {policy : Policy} (other : policy.algorithm ≠ .roundRobin) :
    policy.queue? = none := by
  cases policy with
  | roundRobin => exact absurd rfl other
  | fcfs | srtf | sjf => rfl

theorem Policy.queue?_eq_none_of_unmarked {policy : Policy}
    (unmarked : policy.algorithm.marksReady = false) : policy.queue? = none := by
  cases policy with
  | roundRobin => cases unmarked
  | fcfs | srtf | sjf => rfl

/-- A policy without a queue is its rule. -/
theorem Policy.eq_of_rule_eq {policy other : Policy} (no_queue : other.queue? = none)
    (same : policy.rule = other.rule) : policy = other := by
  cases other with
  | roundRobin => cases no_queue
  | fcfs | srtf | sjf =>
    cases policy with
    | roundRobin => cases same
    | fcfs | srtf | sjf => exact same

theorem Policy.eq_srtf_of_algorithm_eq {policy : Policy} (same : policy.algorithm = .srtf) :
    policy = .srtf := by
  cases policy with
  | srtf => rfl
  | fcfs | roundRobin | sjf => cases same

theorem Policy.eq_roundRobin_of_algorithm_eq {policy : Policy}
    (same : policy.algorithm = .roundRobin) :
    ∃ quantum queue, policy = .roundRobin quantum queue := by
  cases policy with
  | roundRobin quantum queue => exact ⟨quantum, queue, rfl⟩
  | fcfs | srtf | sjf => cases same

theorem Policy.eq_roundRobin_of_rule_eq {policy : Policy} {quantum capacity : Nat}
    (same : policy.rule = .roundRobin quantum (.empty capacity)) :
    ∃ queue, policy = .roundRobin quantum queue ∧ queue.capacity = capacity := by
  cases policy with
  | fcfs | srtf | sjf => cases same
  | roundRobin q queue =>
    cases same
    exact ⟨queue, rfl, rfl⟩

namespace Machine

/-- The slot that a processor holds. -/
def held (m : Machine) (cpu : Nat) : Option Nat := m.cpus[cpu]?.bind (·.current)

/-- Where the process of a slot stands. -/
def status? (m : Machine) (slot : Nat) : Option Status := m.procs[slot]?.map (·.status)

/-- The queued slots, front first; a policy without a queue has none. -/
def queued (m : Machine) : List Nat := m.policy.queue?.elim [] (·.slots)

theorem status?_eq_some {m : Machine} {slot : Nat} {status : Status} :
    m.status? slot = some status ↔ ∃ p, m.procs[slot]? = some p ∧ p.status = status :=
  Option.map_eq_some_iff

theorem status?_of_getElem? {m : Machine} {slot : Nat} {p : ProcessRecord}
    (found : m.procs[slot]? = some p) : m.status? slot = some p.status := by
  rw [status?, found, Option.map_some]

theorem lt_of_status? {m : Machine} {slot : Nat} {status : Status}
    (stands : m.status? slot = some status) : slot < m.procs.length := by
  obtain ⟨p, found, -⟩ := status?_eq_some.1 stands
  exact (List.getElem?_eq_some_iff.1 found).1

theorem occupant?_eq_some {m : Machine} {cpu slot : Nat} {p : ProcessRecord} :
    m.occupant? cpu = some (slot, p) ↔ m.held cpu = some slot ∧ m.procs[slot]? = some p := by
  unfold occupant? held
  constructor
  · intro h
    obtain ⟨s, holds, h⟩ := Option.bind_eq_some_iff.1 h
    obtain ⟨q, found, same⟩ := Option.map_eq_some_iff.1 h
    cases same
    exact ⟨holds, found⟩
  · rintro ⟨holds, found⟩
    rw [holds, Option.bind_some, found, Option.map_some]

theorem occupant?_eq_none {m : Machine} {cpu : Nat} (free : m.held cpu = none) :
    m.occupant? cpu = none := by
  cases occupied : m.occupant? cpu with
  | none => rfl
  | some entry =>
    have holds := (occupant?_eq_some.1 occupied).1
    rw [free] at holds
    cases holds

theorem isIdleAt_iff {m : Machine} {cpu : Nat} :
    m.isIdleAt cpu = true ↔ cpu < m.cpus.size ∧ m.held cpu = none := by
  unfold isIdleAt held
  by_cases inside : cpu < m.cpus.size
  · simp [inside, Cpu.isIdle]
  · simp [inside]

theorem held_lt {m : Machine} {cpu slot : Nat} (holds : m.held cpu = some slot) :
    cpu < m.cpus.size := by
  obtain ⟨c, found, -⟩ := Option.bind_eq_some_iff.1 holds
  exact (Array.getElem?_eq_some_iff.1 found).1

/-! How the parts of a machine carry over when a record or a processor is replaced. -/

theorem countP_set_add {α : Type} (f : α → Bool) {l : List α} {i : Nat} {a : α}
    (found : l[i]? = some a) (b : α) :
    (l.set i b).countP f + (if f a then 1 else 0) = l.countP f + if f b then 1 else 0 := by
  obtain ⟨inside, rfl⟩ := List.getElem?_eq_some_iff.1 found
  rw [List.countP_set inside]
  split
  next fits =>
    have counted : 0 < l.countP f := List.countP_pos_iff.2 ⟨_, List.getElem_mem inside, fits⟩
    omega
  next => rfl

theorem map_set_of_eq {α β : Type} {f : α → β} {l : List α} {i : Nat} {a b : α}
    (found : l[i]? = some a) (same : f b = f a) : (l.set i b).map f = l.map f := by
  obtain ⟨inside, rfl⟩ := List.getElem?_eq_some_iff.1 found
  rw [List.map_set, same, ← List.map_set, List.set_getElem_self]

theorem map_status_set {procs : List ProcessRecord} {slot : Nat} {p : ProcessRecord}
    (found : procs[slot]? = some p) (q : ProcessRecord) :
    (fun i => (procs.set slot q)[i]?.map (·.status)) =
      Function.update (fun i => procs[i]?.map (·.status)) slot (some q.status) := by
  funext i
  have inside := (List.getElem?_eq_some_iff.1 found).1
  by_cases same : i = slot
  · subst same
    rw [Function.update_self, List.getElem?_set_self inside, Option.map_some]
  · rw [Function.update_of_ne same, List.getElem?_set_ne (Ne.symm same)]

theorem bind_current_modify {cpus : Array Cpu} {cpu : Nat} (inside : cpu < cpus.size)
    {change : Cpu → Cpu} {now : Option Nat} (sets : ∀ c, (change c).current = now) :
    (fun i => (cpus.modify cpu change)[i]?.bind (·.current)) =
      Function.update (fun i => cpus[i]?.bind (·.current)) cpu now := by
  funext i
  rw [Array.getElem?_modify]
  by_cases same : i = cpu
  · subst same
    rw [Function.update_self, if_pos rfl, Array.getElem?_eq_getElem inside]
    exact sets _
  · rw [Function.update_of_ne same, if_neg (Ne.symm same)]

theorem bind_current_modify_elapse (cpus : Array Cpu) (cpu : Nat) :
    (fun i : Nat => (cpus.modify cpu Cpu.elapse)[i]?.bind (·.current)) =
      fun i : Nat => cpus[i]?.bind (·.current) := by
  have keeps : ∀ c : Cpu, c.elapse.current = c.current := by
    intro c
    unfold Cpu.elapse
    split <;> rfl
  funext i
  rw [Array.getElem?_modify]
  split
  · cases cpus[i]? with
    | none => rfl
    | some c => exact keeps c
  · rfl

/-! A process put on a processor. -/
section Dispatch
variable (m : Machine) (cpu slot : Nat)

theorem dispatch_eq {p : ProcessRecord} (found : m.procs[slot]? = some p) :
    m.dispatch cpu slot =
      { m with
        procs := m.procs.set slot (p.dispatch cpu m.now)
        cpus := m.cpus.modify cpu (·.assign slot)
        trace := m.trace.push ⟨m.now, cpu, .dispatched, p.pid⟩
        journal := m.journal.add (.dispatched p.pid cpu p.remaining) } := by
  rw [dispatch, found]

@[simp] theorem now_dispatch : (m.dispatch cpu slot).now = m.now := by
  unfold dispatch
  split <;> rfl

@[simp] theorem policy_dispatch : (m.dispatch cpu slot).policy = m.policy := by
  unfold dispatch
  split <;> rfl

@[simp] theorem completed_dispatch : (m.dispatch cpu slot).completed = m.completed := by
  unfold dispatch
  split <;> rfl

@[simp] theorem dropped_dispatch : (m.dispatch cpu slot).dropped = m.dropped := by
  unfold dispatch
  split <;> rfl

@[simp] theorem timeline_dispatch : (m.dispatch cpu slot).timeline = m.timeline := by
  unfold dispatch
  split <;> rfl

@[simp] theorem size_cpus_dispatch : (m.dispatch cpu slot).cpus.size = m.cpus.size := by
  unfold dispatch
  split
  · rfl
  · exact Array.size_modify

@[simp] theorem length_procs_dispatch :
    (m.dispatch cpu slot).procs.length = m.procs.length := by
  unfold dispatch
  split
  · rfl
  · exact List.length_set

@[simp] theorem queued_dispatch : (m.dispatch cpu slot).queued = m.queued := by
  rw [queued, policy_dispatch, queued]

variable {m cpu slot} {p : ProcessRecord}

theorem status?_dispatch (found : m.procs[slot]? = some p) :
    (m.dispatch cpu slot).status? = Function.update m.status? slot (some (.running cpu)) := by
  rw [dispatch_eq m cpu slot found]
  exact map_status_set found _

theorem held_dispatch (found : m.procs[slot]? = some p) (inside : cpu < m.cpus.size) :
    (m.dispatch cpu slot).held = Function.update m.held cpu (some slot) := by
  rw [dispatch_eq m cpu slot found]
  exact bind_current_modify inside fun _ => rfl

variable (m cpu slot) in
theorem held_dispatch_of_ne {c : Nat} (other : c ≠ cpu) :
    (m.dispatch cpu slot).held c = m.held c := by
  cases found : m.procs[slot]? with
  | none => rw [dispatch, found]
  | some p =>
    rw [dispatch_eq m cpu slot found, held, Array.getElem?_modify, if_neg (Ne.symm other)]
    rfl

theorem getElem?_procs_dispatch (found : m.procs[slot]? = some p) :
    (m.dispatch cpu slot).procs[slot]? = some (p.dispatch cpu m.now) := by
  rw [dispatch_eq m cpu slot found]
  exact List.getElem?_set_self (List.getElem?_eq_some_iff.1 found).1

variable (m cpu slot) in
theorem getElem?_procs_dispatch_of_ne {s : Nat} (other : s ≠ slot) :
    (m.dispatch cpu slot).procs[s]? = m.procs[s]? := by
  cases found : m.procs[slot]? with
  | none => rw [dispatch, found]
  | some p => rw [dispatch_eq m cpu slot found, List.getElem?_set_ne other.symm]

end Dispatch

/-! An occupant taken off its processor. -/
section Vacate
variable {m : Machine} {cpu slot : Nat} {p : ProcessRecord} {status : Status} {kind : Event.Kind}
  {notice : Log.Notice}

theorem status?_vacate (found : m.procs[slot]? = some p) :
    (m.vacate cpu slot p status kind notice).status? =
      Function.update m.status? slot (some status) :=
  map_status_set found _

theorem held_vacate (inside : cpu < m.cpus.size) :
    (m.vacate cpu slot p status kind notice).held = Function.update m.held cpu none :=
  bind_current_modify inside fun _ => rfl

theorem size_cpus_vacate :
    (m.vacate cpu slot p status kind notice).cpus.size = m.cpus.size := Array.size_modify

end Vacate

/-! A slot sent to the queue: only the policy, the count of refusals and the journal change. -/
section SendToQueue
variable (m : Machine) (slot : Nat)

@[simp] theorem procs_sendToQueue : (m.sendToQueue slot).procs = m.procs := by
  unfold sendToQueue
  split <;> rfl

@[simp] theorem cpus_sendToQueue : (m.sendToQueue slot).cpus = m.cpus := by
  unfold sendToQueue
  split <;> rfl

@[simp] theorem now_sendToQueue : (m.sendToQueue slot).now = m.now := by
  unfold sendToQueue
  split <;> rfl

@[simp] theorem completed_sendToQueue : (m.sendToQueue slot).completed = m.completed := by
  unfold sendToQueue
  split <;> rfl

@[simp] theorem trace_sendToQueue : (m.sendToQueue slot).trace = m.trace := by
  unfold sendToQueue
  split <;> rfl

@[simp] theorem timeline_sendToQueue : (m.sendToQueue slot).timeline = m.timeline := by
  unfold sendToQueue
  split <;> rfl

@[simp] theorem held_sendToQueue : (m.sendToQueue slot).held = m.held := by
  unfold held
  rw [cpus_sendToQueue]

@[simp] theorem status?_sendToQueue : (m.sendToQueue slot).status? = m.status? := by
  unfold status?
  rw [procs_sendToQueue]

variable {m slot} {quantum : Nat} {queue longer : ReadyQueue} {e : QueueOverflow}

theorem sendToQueue_of_ok (policy : m.policy = .roundRobin quantum queue)
    (asked : queue.enqueue slot = .ok longer) :
    m.sendToQueue slot = { m with policy := .roundRobin quantum longer } := by
  simp only [sendToQueue, policy, Policy.enqueue?, asked, Except.map]

theorem sendToQueue_of_error {p : ProcessRecord} (policy : m.policy = .roundRobin quantum queue)
    (asked : queue.enqueue slot = .error e) (found : m.procs[slot]? = some p) :
    m.sendToQueue slot =
      { m with dropped := m.dropped + 1, journal := m.journal.add (.enqueueRefused p.pid e) } := by
  simp only [sendToQueue, policy, Policy.enqueue?, asked, Except.map, found]

theorem policy_sendToQueue_of_error (policy : m.policy = .roundRobin quantum queue)
    (asked : queue.enqueue slot = .error e) : (m.sendToQueue slot).policy = m.policy := by
  cases found : m.procs[slot]? with
  | none => simp only [sendToQueue, policy, Policy.enqueue?, asked, Except.map, found]
  | some p => rw [sendToQueue_of_error policy asked found]

theorem sendToQueue_of_queue?_eq_none (no_queue : m.policy.queue? = none) :
    m.sendToQueue slot = m := by
  cases policy : m.policy with
  | roundRobin => rw [policy] at no_queue; cases no_queue
  | fcfs | srtf | sjf => simp only [sendToQueue, policy, Policy.enqueue?]

/-- A slot sent to the queue stands at its rear afterwards, or was refused. -/
theorem queued_sendToQueue (m : Machine) (slot : Nat) :
    (m.sendToQueue slot).queued = m.queued ∨
      (m.sendToQueue slot).queued = m.queued ++ [slot] := by
  cases policy : m.policy with
  | fcfs | srtf | sjf =>
    left
    rw [sendToQueue_of_queue?_eq_none]
    rw [policy]
    rfl
  | roundRobin quantum queue =>
    cases asked : queue.enqueue slot with
    | error e =>
      left
      rw [queued, policy_sendToQueue_of_error policy asked, queued]
    | ok longer =>
      right
      rw [sendToQueue_of_ok policy asked, queued, queued, policy]
      exact (ReadyQueue.slots_enqueue asked).1

/-- Nothing but the queued slots of a policy is changed by a slot that asks for the queue. -/
@[simp] theorem rule_sendToQueue (m : Machine) (slot : Nat) :
    (m.sendToQueue slot).policy.rule = m.policy.rule := by
  cases policy : m.policy with
  | fcfs | srtf | sjf =>
    rw [sendToQueue_of_queue?_eq_none] <;> rw [policy]
    rfl
  | roundRobin quantum queue =>
    cases asked : queue.enqueue slot with
    | error e => rw [policy_sendToQueue_of_error policy asked, policy]
    | ok longer =>
      rw [sendToQueue_of_ok policy asked, Policy.rule, (ReadyQueue.slots_enqueue asked).2]
      rfl

end SendToQueue

end Machine
end CpuScheduling
