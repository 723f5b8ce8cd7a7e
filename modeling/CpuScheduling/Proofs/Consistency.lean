import CpuScheduling.Proofs.Moves
/-!
Consistency: processors and processes agree, the count of finished processes is right, the queue
holds ready processes once each, and what has not arrived is untouched. Every move and every phase
keeps it.
-/
namespace CpuScheduling

theorem ProcessTable.countCompleted_eq (procs : List ProcessRecord) :
    countCompleted procs = (procs.map (·.account)).countP (·.completed) := by
  rw [List.countP_map]
  rfl

namespace Matching
variable {m : Machine} {cpu slot : Nat} {p : ProcessRecord} (h : Matching m.held m.status?)
include h

theorem running_of_held (holds : m.held cpu = some slot) (found : m.procs[slot]? = some p) :
    p.status = .running cpu := by
  have status := (h cpu slot).1 holds
  rw [Machine.status?_of_getElem? found] at status
  exact Option.some.inj status

theorem dispatch (idle : m.isIdleAt cpu = true) (found : m.procs[slot]? = some p)
    (off : ∀ c, p.status ≠ .running c) :
    Matching (m.dispatch cpu slot).held (m.dispatch cpu slot).status? := by
  obtain ⟨inside, free⟩ := Machine.isIdleAt_iff.1 idle
  rw [Machine.held_dispatch found inside, Machine.status?_dispatch found]
  refine h.assign free fun c at_cpu => off c ?_
  rw [Machine.status?_of_getElem? found] at at_cpu
  exact Option.some.inj at_cpu

theorem vacate (holds : m.held cpu = some slot) (found : m.procs[slot]? = some p) {status : Status}
    (off : ∀ c, status ≠ .running c) (kind : Event.Kind) (notice : Log.Notice) :
    Matching (m.vacate cpu slot p status kind notice).held
      (m.vacate cpu slot p status kind notice).status? := by
  rw [Machine.held_vacate (Machine.held_lt holds), Machine.status?_vacate found]
  exact h.release holds off

end Matching

namespace Machine

/-- What holds of a machine between any two phases. -/
structure Consistent (m : Machine) : Prop where
  matching : Matching m.held m.status?
  completed_eq : m.completed = ProcessTable.countCompleted m.procs
  queued_nodup : m.queued.Nodup
  queued_ready : ∀ slot ∈ m.queued, m.status? slot = some .ready
  unarrived : ∀ p ∈ m.procs, m.now < p.arrival → p = p.toJob.toRecord

namespace Consistent
variable {m m' : Machine}

/-- Consistency looks neither at what is recorded nor at the ticks that processors count. -/
theorem congr (h : Consistent m) (procs : m'.procs = m.procs) (held_eq : m'.held = m.held)
    (policy : m'.policy = m.policy) (now : m'.now = m.now) (completed : m'.completed = m.completed) :
    Consistent m' := by
  have status_eq : m'.status? = m.status? := by unfold status?; rw [procs]
  have queued_eq : m'.queued = m.queued := by unfold queued; rw [policy]
  constructor
  case matching =>
    rw [held_eq, status_eq]
    exact h.matching
  case completed_eq =>
    rw [completed, procs]
    exact h.completed_eq
  case queued_nodup =>
    rw [queued_eq]
    exact h.queued_nodup
  case queued_ready =>
    rw [queued_eq, status_eq]
    exact h.queued_ready
  case unarrived =>
    rw [procs, now]
    exact h.unarrived

theorem arrived (h : Consistent m) {slot : Nat} {p : ProcessRecord}
    (found : m.procs[slot]? = some p) (moved : p.status ≠ .waiting) : p.arrival ≤ m.now := by
  by_contra late
  have fresh := h.unarrived p (List.mem_of_getElem? found) (Nat.lt_of_not_le late)
  exact moved (by rw [fresh]; rfl)

theorem arrived_of_ready (h : Consistent m) {slot : Nat} {p : ProcessRecord}
    (found : m.procs[slot]? = some p) (ready : p.status = .ready) : p.arrival ≤ m.now :=
  h.arrived found fun waiting => by rw [ready] at waiting; cases waiting

theorem arrived_of_running (h : Consistent m) {slot cpu : Nat} {p : ProcessRecord}
    (found : m.procs[slot]? = some p) (running : p.status = .running cpu) : p.arrival ≤ m.now :=
  h.arrived found fun waiting => by rw [running] at waiting; cases waiting

theorem running_of_held (h : Consistent m) {cpu slot : Nat} {p : ProcessRecord}
    (holds : m.held cpu = some slot) (found : m.procs[slot]? = some p) :
    p.status = .running cpu := h.matching.running_of_held holds found

theorem slot_lt_of_held (h : Consistent m) {cpu slot : Nat} (holds : m.held cpu = some slot) :
    ∃ p, m.procs[slot]? = some p ∧ p.status = .running cpu :=
  status?_eq_some.1 ((h.matching cpu slot).1 holds)

theorem not_queued (h : Consistent m) {slot : Nat} {status : Status}
    (stands : m.status? slot = some status) (other : status ≠ .ready) : slot ∉ m.queued := by
  intro member
  exact other (Option.some.inj (stands.symm.trans (h.queued_ready slot member)))

theorem queued_lt (h : Consistent m) : ∀ slot ∈ m.queued, slot < m.procs.length :=
  fun slot member => lt_of_status? (h.queued_ready slot member)

theorem unarrived_set (h : Consistent m) {slot : Nat} {q : ProcessRecord}
    (arrived : q.arrival ≤ m.now) :
    ∀ p ∈ m.procs.set slot q, m.now < p.arrival → p = p.toJob.toRecord := by
  intro p member late
  rcases List.mem_or_eq_of_mem_set member with old | rfl
  · exact h.unarrived p old late
  · exact absurd arrived (Nat.not_le_of_lt late)

theorem completed_move (h : Consistent m) (step : Move m m') :
    m'.completed = ProcessTable.countCompleted m'.procs := by
  rw [step.completed_eq, h.completed_eq, ProcessTable.countCompleted_eq,
    ProcessTable.countCompleted_eq]
  exact congrArg _ step.accounts_eq.symm

theorem place (h : Consistent m) {cpu slot : Nat} {p : ProcessRecord}
    (idle : m.isIdleAt cpu = true) (found : m.procs[slot]? = some p)
    (pending : p.status = .waiting ∨ p.status = .ready) (arrived : p.arrival ≤ m.now)
    (unqueued : slot ∉ m.queued) : Consistent (m.dispatch cpu slot) := by
  have off : ∀ c, p.status ≠ .running c := by
    intro c
    rcases pending with status | status <;> rw [status] <;> exact nofun
  constructor
  case matching => exact h.matching.dispatch idle found off
  case completed_eq =>
    exact h.completed_move (.place idle found pending arrived unqueued)
  case queued_nodup =>
    rw [queued_dispatch]
    exact h.queued_nodup
  case queued_ready =>
    intro s member
    rw [queued_dispatch] at member
    rw [status?_dispatch found, Function.update_of_ne]
    · exact h.queued_ready s member
    · rintro rfl
      exact unqueued member
  case unarrived =>
    rw [dispatch_eq m cpu slot found]
    exact h.unarrived_set arrived

theorem displace (h : Consistent m) {cpu slot : Nat} {p : ProcessRecord}
    (holds : m.held cpu = some slot) (found : m.procs[slot]? = some p)
    (running : p.status = .running cpu) {status : Status} {kind : Event.Kind}
    (cause : status = .ready ∧ kind = .expired ∨ status = .waiting ∧ kind = .preempted)
    (notice : Log.Notice) : Consistent (m.vacate cpu slot p status kind notice) := by
  have off : ∀ c, status ≠ .running c := by
    intro c
    rcases cause with ⟨rfl, -⟩ | ⟨rfl, -⟩ <;> exact nofun
  constructor
  case matching => exact h.matching.vacate holds found off kind notice
  case completed_eq =>
    exact h.completed_move (.displace holds found running cause notice)
  case queued_nodup =>
    exact h.queued_nodup
  case queued_ready =>
    intro s member
    rw [status?_vacate found, Function.update_of_ne]
    · exact h.queued_ready s member
    · rintro rfl
      exact h.not_queued ((h.matching cpu s).1 holds) nofun member
  case unarrived =>
    have arrived : p.arrival ≤ m.now := h.arrived_of_running found running
    exact h.unarrived_set arrived

theorem enqueue (h : Consistent m) {slot : Nat} (ready : m.status? slot = some .ready)
    (unqueued : slot ∉ m.queued) : Consistent (m.sendToQueue slot) := by
  constructor
  case matching =>
    rw [held_sendToQueue, status?_sendToQueue]
    exact h.matching
  case completed_eq =>
    rw [completed_sendToQueue, procs_sendToQueue]
    exact h.completed_eq
  case queued_nodup =>
    rcases queued_sendToQueue m slot with same | longer
    · rw [same]
      exact h.queued_nodup
    · rw [longer]
      rw [← List.concat_eq_append]
      exact h.queued_nodup.concat unqueued
  case queued_ready =>
    intro s member
    rw [status?_sendToQueue]
    rcases queued_sendToQueue m slot with same | longer
    · exact h.queued_ready s (same ▸ member)
    · rcases List.mem_append.1 (longer ▸ member) with old | new
      · exact h.queued_ready s old
      · rw [List.mem_singleton.1 new]
        exact ready
  case unarrived =>
    rw [procs_sendToQueue, now_sendToQueue]
    exact h.unarrived

theorem dequeue (h : Consistent m) {quantum : Nat} {queue : ReadyQueue}
    (policy : m.policy = .roundRobin quantum queue) :
    Consistent { m with policy := .roundRobin quantum queue.dequeue.2 } := by
  have queued_eq : m.queued = queue.slots := by rw [queued, policy]; rfl
  have shorter : Machine.queued { m with policy := .roundRobin quantum queue.dequeue.2 } =
      m.queued.tail := by rw [queued_eq, ← queue.slots_dequeue]; rfl
  constructor
  case matching =>
    exact h.matching
  case completed_eq =>
    exact h.completed_eq
  case queued_nodup =>
    rw [shorter]
    exact h.queued_nodup.tail
  case queued_ready =>
    rw [shorter]
    exact fun slot member => h.queued_ready slot (List.mem_of_mem_tail member)
  case unarrived =>
    exact h.unarrived

theorem move (h : Consistent m) (step : Move m m') : Consistent m' := by
  cases step with
  | place idle found pending arrived unqueued => exact h.place idle found pending arrived unqueued
  | displace holds found running cause notice => exact h.displace holds found running cause notice
  | enqueue ready unqueued => exact h.enqueue ready unqueued
  | dequeue policy => exact h.dequeue policy

theorem moves (h : Consistent m) (steps : Moves m m') : Consistent m' := by
  induction steps with
  | refl => exact h
  | tail _ last ih => exact ih.move last

end Consistent
end Machine
end CpuScheduling
