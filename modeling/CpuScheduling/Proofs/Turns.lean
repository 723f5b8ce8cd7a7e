import CpuScheduling.Proofs.Queueing
import Mathlib.Data.List.Sort
/-!
Turns. Under round robin the processes leave the queue in exactly the order in which it took them:
nothing is lost, doubled or overtaken, but for those that the full queue refused, and these are
counted.
-/
namespace CpuScheduling

/-- What happens to slots at a queue: which it took, which got a processor and which it refused,
each in the order of events. -/
structure TurnLog where
  accepted : List Nat := []
  dispatched : List Nat := []
  refused : List Nat := []

def TurnLog.append (log more : TurnLog) : TurnLog where
  accepted := log.accepted ++ more.accepted
  dispatched := log.dispatched ++ more.dispatched
  refused := log.refused ++ more.refused

theorem TurnLog.append_empty (log : TurnLog) : log.append {} = log := by
  simp only [append, List.append_nil]

theorem TurnLog.append_assoc (log more last : TurnLog) :
    (log.append more).append last = log.append (more.append last) := by
  simp only [append, List.append_assoc]

/-- Where a process that has arrived can be found under round robin. -/
inductive Whereabouts where
  | queued
  | running (cpu : Nat)
  | finished
  /-- Refused by the full queue. -/
  | lost

def Whereabouts.status : Whereabouts → Status
  | .queued | .lost => .ready
  | .running cpu => .running cpu
  | .finished => .completed

namespace Machine

/-- The slots of the processes that arrive at `tick`, in the order of the table. -/
def arrivalsAt (m : Machine) (tick : Nat) : List Nat :=
  (List.range m.procs.length).filter fun slot => m.procs[slot]?.any fun p => p.arrival = tick

/-- The slots that ask for the queue in a tick: its arrivals in the order of the table, then those
whose quantum is used up in the order of their processors. -/
def requests (quantum : Nat) (m : Machine) : List Nat :=
  m.arrivalsAt m.now ++ m.enqueued.expiring quantum

/-- What happens at the queue in the tick to come. -/
def tickLog (m : Machine) : TurnLog :=
  match m.policy with
  | .roundRobin quantum queue =>
    { accepted := queue.accepted (m.requests quantum)
      dispatched := m.served
      refused := queue.refused (m.requests quantum) }
  | .fcfs | .srtf | .sjf => { dispatched := m.served }

/-- What happens at the queue in the next `n` ticks. -/
def turnLog (m : Machine) : Nat → TurnLog
  | 0 => {}
  | n + 1 => (m.turnLog n).append (m.steps n).tickLog

/-- Whether a slot is found at a place; those in `lost` were refused by the queue. -/
def IsFound (m : Machine) (lost : List Nat) (slot : Nat) : Whereabouts → Prop
  | .queued => slot ∈ m.queued
  | .running cpu => m.held cpu = some slot
  | .finished => m.status? slot = some .completed
  | .lost => slot ∈ lost

/-- A machine that agrees with the log of its queue. -/
structure Ledger (log : TurnLog) (m : Machine) : Prop where
  fifo : log.dispatched ++ m.queued = log.accepted
  ready_iff : ∀ slot, m.status? slot = some .ready ↔ slot ∈ m.queued ∨ slot ∈ log.refused
  refused_unqueued : ∀ slot ∈ log.refused, slot ∉ m.queued
  refused_nodup : log.refused.Nodup
  dropped_eq : m.dropped = log.refused.length
  enrolled : ∀ (slot : Nat) (p : ProcessRecord), m.procs[slot]? = some p → p.arrival < m.now →
    p.status ≠ .waiting
  recorded : m.trace.dispatchedPids.map some =
    log.dispatched.map fun slot => m.jobs[slot]?.map (·.pid)

variable {m : Machine} {quantum : Nat} {queue : ReadyQueue} {log : TurnLog}

/-! The standing of a slot through the phases of a tick. -/

/-- The machine meets the arrivals of a tick in the order of the table. -/
theorem arrivalsAt_now (m : Machine) : m.arrivalsAt m.now = m.arriving := by
  have ascending : (m.arrivalsAt m.now).Pairwise (· < ·) := List.pairwise_lt_range.filter _
  refine ascending.eq_of_mem_iff m.pairwise_arriving fun slot => ?_
  rw [arrivalsAt, List.mem_filter, List.mem_range, Option.any_eq_true, mem_arriving]
  constructor
  · rintro ⟨-, p, found, at_once⟩
    exact ⟨p, found, of_decide_eq_true at_once⟩
  · rintro ⟨p, found, at_once⟩
    exact ⟨(List.getElem?_eq_some_iff.1 found).1, p, found, decide_eq_true at_once⟩

theorem requests_eq (quantum : Nat) (m : Machine) :
    m.requests quantum = m.arriving ++ m.enqueued.expiring quantum := by
  rw [requests, arrivalsAt_now]

theorem AtRest.ready_enrolled_iff (h : AtRest m) (marks : m.policy.algorithm.marksReady = true)
    (slot : Nat) : m.enrolled.status? slot = some .ready ↔
      m.status? slot = some .ready ∨ slot ∈ m.arriving := by
  constructor
  · intro ready
    rw [status?_enrolled] at ready
    obtain ⟨p, found, ready⟩ := Option.map_eq_some_iff.1 ready
    rcases p.enroll_cases m.policy.algorithm m.now with same | ⟨-, at_once, -⟩
    · left
      rw [status?_of_getElem? found, ← same, ready]
    · exact .inr (mem_arriving.2 ⟨p, found, at_once⟩)
  · rintro (ready | member)
    · obtain ⟨p, found, ready⟩ := status?_eq_some.1 ready
      rw [status?_enrolled, found, Option.map_some, p.status_enroll_of_ready _ _ ready]
    · exact h.ready_of_arriving marks member

theorem foldl_sendToQueue_keeps {α : Type} {view : Machine → α}
    (keeps : ∀ x slot, view (sendToQueue x slot) = view x) (slots : List Nat) (m : Machine) :
    view (slots.foldl sendToQueue m) = view m := by
  induction slots generalizing m with
  | nil => rfl
  | cons slot slots ih => rw [List.foldl_cons, ih, keeps]

theorem status?_enqueued (m : Machine) : m.enqueued.status? = m.enrolled.status? :=
  foldl_sendToQueue_keeps status?_sendToQueue m.arriving m.enrolled

theorem trace_enqueued (m : Machine) : m.enqueued.trace = m.trace :=
  foldl_sendToQueue_keeps trace_sendToQueue m.arriving m.enrolled

/-! One tick. -/

theorem asked_enqueued (policy : m.policy = .roundRobin quantum queue) :
    Asked quantum queue m.dropped m.arriving m.enqueued := by
  have start : Asked quantum queue m.enrolled.dropped [] m.enrolled := .nil policy
  refine start.foldl m.arriving fun slot member => ?_
  obtain ⟨p, found, -⟩ := mem_arriving.1 member
  rw [procs_enrolled, List.getElem?_map, found]
  exact ⟨_, rfl⟩

theorem rescheduled_eq_endSlices (policy : m.policy = .roundRobin quantum queue) :
    m.rescheduled = m.enqueued.endSlices quantum := by
  rw [rescheduled_eq, policy]

section Tick
variable (h : AtRest m) (policy : m.policy = .roundRobin quantum queue)
include h policy

theorem AtRest.asked_rescheduled :
    Asked quantum queue m.dropped (m.requests quantum) m.rescheduled := by
  rw [rescheduled_eq_endSlices policy, requests_eq]
  exact (asked_enqueued policy).endSlices h.consistent_enqueued

/-- The queue before the tick and what it took in the tick, in order, are what got a processor and
the queue after the tick. -/
theorem AtRest.served_append_queued :
    m.served ++ m.step.queued = m.queued ++ queue.accepted (m.requests quantum) := by
  have asked := h.asked_rescheduled policy
  have turns : m.rescheduled.policy.algorithm = .roundRobin := by rw [asked.policy]; rfl
  have before : m.queued = queue.slots := by rw [queued, policy]; rfl
  rw [queued_step, before, ← asked.queued]
  exact queued_occupyThese h.consistent_rescheduled List.nodup_range turns

theorem AtRest.dropped_step_eq :
    m.step.dropped = m.dropped + (queue.refused (m.requests quantum)).length := by
  rw [dropped_step, ← ReadyQueue.fst_enqueueAll, ← (h.asked_rescheduled policy).dropped]
  exact dropped_occupyThese _ _

/-- All slots that were queued or asked: served, queued after the tick, or refused. -/
theorem AtRest.asking_eq : m.queued ++ m.requests quantum =
    m.served ++ m.step.queued ++ queue.refused (m.requests quantum) := by
  rw [h.served_append_queued policy, List.append_assoc, ReadyQueue.accepted_append_refused]

theorem AtRest.status?_occupied {slot : Nat} (unserved : slot ∉ m.served) :
    m.occupied.status? slot =
      if slot ∈ m.enqueued.expiring quantum then some .ready else m.enrolled.status? slot := by
  rw [← m.status?_enqueued, ← status?_endSlices h.consistent_enqueued,
    ← rescheduled_eq_endSlices policy]
  exact h.status?_of_unserved unserved

theorem AtRest.ready_step_iff (slot : Nat) : m.step.status? slot = some .ready ↔
    slot ∉ m.served ∧ (m.status? slot = some .ready ∨ slot ∈ m.requests quantum) := by
  have marks : m.policy.algorithm.marksReady = true := by rw [policy]; rfl
  have off : ∀ cpu, Status.ready ≠ .running cpu := nofun
  rw [h.status?_step slot off nofun]
  by_cases member : slot ∈ m.served
  · obtain ⟨cpu, runs⟩ := h.running_of_served member
    rw [runs]
    exact ⟨nofun, fun served => absurd member served.1⟩
  · rw [h.status?_occupied policy member, requests_eq, List.mem_append, ← or_assoc,
      ← h.ready_enrolled_iff marks]
    split
    next ends => simp [member, ends]
    next goes => simp [member, goes]

/-- Who waits after a tick did so before it, and arrives later. -/
theorem AtRest.waiting_step {slot : Nat} (waits : m.step.status? slot = some .waiting) :
    m.status? slot = some .waiting ∧ slot ∉ m.arriving := by
  have marks : m.policy.algorithm.marksReady = true := by rw [policy]; rfl
  have off : ∀ cpu, Status.waiting ≠ .running cpu := nofun
  have before := h.status?_rescheduled ((h.status?_step slot off nofun).1 waits) off
  rw [rescheduled_eq_endSlices policy, status?_endSlices h.consistent_enqueued,
    status?_enqueued] at before
  split at before
  · cases before
  have later : slot ∉ m.arriving := by
    intro arrives
    rw [h.ready_of_arriving marks arrives] at before
    cases before
  refine ⟨?_, later⟩
  rw [status?_enrolled] at before
  obtain ⟨p, found, waiting⟩ := Option.map_eq_some_iff.1 before
  rcases p.enroll_cases m.policy.algorithm m.now with same | ⟨-, at_once, -⟩
  · rw [same] at waiting
    exact status?_eq_some.2 ⟨p, found, waiting⟩
  · exact absurd (mem_arriving.2 ⟨p, found, at_once⟩) later

theorem AtRest.recorded_step : m.step.trace.dispatchedPids.map some =
    m.trace.dispatchedPids.map some ++ m.served.map fun slot => m.jobs[slot]?.map (·.pid) := by
  have jobs : m.rescheduled.jobs = m.jobs :=
    jobs_eq_of_accounts_eq (((moves_rescheduled h.consistent_enqueued).accounts_eq.trans
      h.moves_enqueued.accounts_eq).trans m.accounts_enrolled)
  have before : m.rescheduled.trace.dispatchedPids = m.trace.dispatchedPids := by
    rw [rescheduled_eq_endSlices policy, dispatchedPids_endSlices, trace_enqueued]
  have nodup : (List.range m.rescheduled.cpus.size).Nodup := List.nodup_range
  rw [dispatchedPids_step, served, List.map_map, ← before, ← jobs]
  exact dispatchedPids_occupyThese h.consistent_rescheduled nodup

/-- Who expires was running; so it was neither ready before nor arrives. -/
theorem AtRest.unready_of_expiring {slot : Nat} (ends : slot ∈ m.enqueued.expiring quantum) :
    ¬(m.status? slot = some .ready ∨ slot ∈ m.arriving) := by
  have marks : m.policy.algorithm.marksReady = true := by rw [policy]; rfl
  intro ready
  obtain ⟨cpu, runs⟩ := running_of_mem_expiring h.consistent_enqueued ends
  rw [m.status?_enqueued, (h.ready_enrolled_iff marks slot).2 ready] at runs
  cases runs

theorem AtRest.unrequested_of_ready {slot : Nat} (ready : m.status? slot = some .ready) :
    slot ∉ m.requests quantum := by
  intro asks
  rw [requests_eq] at asks
  rcases List.mem_append.1 asks with arrives | ends
  · obtain ⟨p, found, -, waiting⟩ := h.waiting_of_arriving arrives
    rw [status?_of_getElem? found, waiting] at ready
    cases ready
  · exact h.unready_of_expiring policy ends (.inl ready)

theorem AtRest.nodup_requests : (m.requests quantum).Nodup := by
  rw [requests_eq]
  refine List.nodup_append.2 ⟨m.nodup_arriving, nodup_expiring h.consistent_enqueued quantum, ?_⟩
  rintro slot arrives _ ends rfl
  exact h.unready_of_expiring policy ends (.inr arrives)

end Tick

/-! The log of a run. -/

section Step
variable (l : Ledger log m) (h : AtRest m) (policy : m.policy = .roundRobin quantum queue)

theorem refused_append_tickLog (policy : m.policy = .roundRobin quantum queue) :
    (log.append m.tickLog).refused = log.refused ++ queue.refused (m.requests quantum) := by
  rw [tickLog, policy]
  rfl

include l h policy

theorem Ledger.asking_nodup : (log.refused ++ (m.queued ++ m.requests quantum)).Nodup := by
  refine List.nodup_append.2 ⟨l.refused_nodup,
    List.nodup_append.2 ⟨h.queued_nodup, h.nodup_requests policy, ?_⟩, ?_⟩
  · rintro slot waits _ asks rfl
    exact h.unrequested_of_ready policy (h.queued_ready slot waits) asks
  · rintro slot lost _ asks rfl
    rcases List.mem_append.1 asks with waits | asks
    · exact l.refused_unqueued slot lost waits
    · exact h.unrequested_of_ready policy ((l.ready_iff slot).2 (.inr lost)) asks

/-- What is lost, served in a tick, left queued by it and refused in it are all different. -/
theorem Ledger.placed_nodup : (log.refused ++
    (m.served ++ m.step.queued ++ queue.refused (m.requests quantum))).Nodup := by
  rw [← h.asking_eq policy]
  exact l.asking_nodup h policy

theorem Ledger.length_asking_le :
    queue.length + (m.requests quantum).length ≤ m.procs.length := by
  have valid : ∀ slot ∈ m.queued ++ m.requests quantum, slot < m.procs.length := by
    intro slot member
    rcases List.mem_append.1 member with waits | asks
    · exact lt_of_status? (h.queued_ready slot waits)
    · rw [requests_eq] at asks
      rcases List.mem_append.1 asks with arrives | ends
      · obtain ⟨p, found, -⟩ := mem_arriving.1 arrives
        exact (List.getElem?_eq_some_iff.1 found).1
      · obtain ⟨cpu, runs⟩ := running_of_mem_expiring h.consistent_enqueued ends
        rw [status?_enqueued] at runs
        simpa [procs_enrolled] using lt_of_status? runs
  have nodup := (List.nodup_append.1 (l.asking_nodup h policy)).2.1
  have bound : (m.queued ++ m.requests quantum).length ≤ (List.range m.procs.length).length :=
    nodup.length_le_of_subset fun slot member => List.mem_range.2 (valid slot member)
  have queued : m.queued = queue.slots := by rw [queued, policy]; rfl
  rwa [List.length_append, List.length_range, queued] at bound

/-- With a place for every process the queue refuses nobody. -/
theorem Ledger.refused_of_room (room : m.procs.length ≤ queue.capacity) :
    queue.refused (m.requests quantum) = [] :=
  ReadyQueue.refused_of_room (Nat.le_trans (l.length_asking_le h policy) room)

theorem Ledger.refused_nodup_step : (log.append m.tickLog).refused.Nodup := by
  obtain ⟨lost_nodup, rest, apart⟩ := List.nodup_append.1 (l.placed_nodup h policy)
  obtain ⟨-, newly_nodup, -⟩ := List.nodup_append.1 rest
  rw [refused_append_tickLog policy]
  refine List.nodup_append.2 ⟨lost_nodup, newly_nodup, fun slot lost other newly => ?_⟩
  exact apart slot lost other (List.mem_append_right _ newly)

theorem Ledger.unplaced {slot : Nat} (refused : slot ∈ (log.append m.tickLog).refused) :
    slot ∉ m.served ++ m.step.queued := by
  obtain ⟨-, rest, apart⟩ := List.nodup_append.1 (l.placed_nodup h policy)
  obtain ⟨-, -, newly_apart⟩ := List.nodup_append.1 rest
  rw [refused_append_tickLog policy] at refused
  intro placed
  rcases List.mem_append.1 refused with lost | newly
  · exact apart slot lost slot (List.mem_append_left _ placed) rfl
  · exact newly_apart slot placed slot newly rfl

theorem Ledger.unserved_of_queued {slot : Nat} (waits : slot ∈ m.step.queued) :
    slot ∉ m.served := by
  obtain ⟨-, rest, -⟩ := List.nodup_append.1 (l.placed_nodup h policy)
  obtain ⟨placed_nodup, -, -⟩ := List.nodup_append.1 rest
  obtain ⟨-, -, apart⟩ := List.nodup_append.1 placed_nodup
  exact fun served => apart slot served slot waits rfl

theorem Ledger.ready_step (slot : Nat) : m.step.status? slot = some .ready ↔
    slot ∈ m.step.queued ∨ slot ∈ (log.append m.tickLog).refused := by
  have asking : slot ∈ m.queued ∨ slot ∈ m.requests quantum ↔
      (slot ∈ m.served ∨ slot ∈ m.step.queued) ∨ slot ∈ queue.refused (m.requests quantum) := by
    rw [← List.mem_append, h.asking_eq policy, List.mem_append, List.mem_append]
  have lost_or_newly : slot ∈ (log.append m.tickLog).refused ↔
      slot ∈ log.refused ∨ slot ∈ queue.refused (m.requests quantum) := by
    rw [refused_append_tickLog policy, List.mem_append]
  -- ready after the tick are those that were queued, asked or lost, but for the served
  rw [h.ready_step_iff policy, l.ready_iff, or_right_comm, asking]
  constructor
  · rintro ⟨unserved, ((served | waits) | newly) | lost⟩
    · exact absurd served unserved
    · exact .inl waits
    · exact .inr (lost_or_newly.2 (.inr newly))
    · exact .inr (lost_or_newly.2 (.inl lost))
  · rintro (waits | refused)
    · exact ⟨l.unserved_of_queued h policy waits, .inl (.inl (.inr waits))⟩
    · refine ⟨fun served => l.unplaced h policy refused (List.mem_append_left _ served), ?_⟩
      exact (lost_or_newly.1 refused).symm.imp_left .inr

theorem Ledger.enrolled_step {slot : Nat} {q : ProcessRecord}
    (found : m.step.procs[slot]? = some q) (early : q.arrival < m.step.now) :
    q.status ≠ .waiting := by
  intro waiting
  obtain ⟨waits, later⟩ := h.waiting_step policy (status?_eq_some.2 ⟨q, found, waiting⟩)
  obtain ⟨p, found', waiting'⟩ := status?_eq_some.1 waits
  have arrival : p.arrival = q.arrival :=
    congrArg (·.arrival) (toJob_eq_of_jobs_eq h.jobs_step.symm found' found)
  rw [h.now_step] at early
  rcases Nat.lt_succ_iff_lt_or_eq.1 early with early | at_once
  · exact l.enrolled slot p found' (arrival ▸ early) waiting'
  · exact later (mem_arriving.2 ⟨p, found', arrival.trans at_once⟩)

theorem Ledger.step : Ledger (log.append m.tickLog) m.step := by
  have tick : m.tickLog = .mk (queue.accepted (m.requests quantum)) m.served
      (queue.refused (m.requests quantum)) := by
    rw [tickLog, policy]
  constructor
  case fifo =>
    rw [tick]
    show log.dispatched ++ m.served ++ m.step.queued = log.accepted ++ _
    rw [List.append_assoc, h.served_append_queued policy, ← List.append_assoc, l.fifo]
  case ready_iff => exact l.ready_step h policy
  case refused_unqueued =>
    exact fun slot refused waits => l.unplaced h policy refused (List.mem_append_right _ waits)
  case refused_nodup => exact l.refused_nodup_step h policy
  case dropped_eq =>
    rw [h.dropped_step_eq policy, l.dropped_eq, refused_append_tickLog policy, List.length_append]
  case enrolled => exact fun slot q found early => l.enrolled_step h policy found early
  case recorded =>
    rw [tick, h.recorded_step policy, h.jobs_step, l.recorded, ← List.map_append]
    rfl

end Step

theorem AtRest.policy_steps (h : AtRest m) (policy : m.policy = .roundRobin quantum queue)
    (n : Nat) : ∃ later, (m.steps n).policy = .roundRobin quantum later := by
  have rule : (m.steps n).policy.rule = .roundRobin quantum (.empty queue.capacity) := by
    rw [h.rule_steps n, policy, Policy.rule]
  obtain ⟨later, policy', -⟩ := Policy.eq_roundRobin_of_rule_eq rule
  exact ⟨later, policy'⟩

theorem AtRest.capacity_steps (h : AtRest m) (policy : m.policy = .roundRobin quantum queue)
    {n : Nat} {later : ReadyQueue} (policy' : (m.steps n).policy = .roundRobin quantum later) :
    later.capacity = queue.capacity := by
  have rule := h.rule_steps n
  rw [policy, policy'] at rule
  simp only [Policy.rule, Policy.roundRobin.injEq] at rule
  exact congrArg (·.capacity) rule.2

theorem AtRest.dropped_steps_le (h : AtRest m) (policy : m.policy = .roundRobin quantum queue)
    (n k : Nat) : (m.steps n).dropped ≤ (m.steps (n + k)).dropped := by
  induction k with
  | zero => exact Nat.le_refl _
  | succ k ih =>
    obtain ⟨later, policy'⟩ := h.policy_steps policy (n + k)
    rw [← Nat.add_assoc, steps_succ, (h.steps (n + k)).dropped_step_eq policy']
    exact Nat.le_add_right_of_le ih

theorem Ledger.steps (l : Ledger log m) (h : AtRest m)
    (policy : m.policy = .roundRobin quantum queue) (n : Nat) :
    Ledger (log.append (m.turnLog n)) (m.steps n) := by
  induction n with
  | zero => rw [turnLog, TurnLog.append_empty]; exact l
  | succ n ih =>
    obtain ⟨later, policy'⟩ := h.policy_steps policy n
    rw [turnLog, ← TurnLog.append_assoc, steps_succ]
    exact ih.step (h.steps n) policy'

theorem ledger_boot (s : Scenario) (algorithm : Algorithm) (quantum capacity : Nat) :
    Ledger {} (boot s (.fresh algorithm quantum capacity)) := by
  have empty := queued_fresh s algorithm quantum capacity
  refine ⟨empty, fun slot => ?_, nofun, List.nodup_nil, rfl, ?_, rfl⟩
  · rw [empty]
    exact iff_of_false (unready_boot s _ slot) nofun
  · exact fun slot p _ early => absurd early (Nat.not_lt_zero _)

theorem Ledger.status?_of_isFound (l : Ledger log m) (h : Consistent m) {slot : Nat} :
    ∀ {place : Whereabouts}, m.IsFound log.refused slot place → m.status? slot = some place.status
  | .queued, waits => h.queued_ready slot waits
  | .running cpu, holds => (h.matching cpu slot).1 holds
  | .finished, done => done
  | .lost, lost => (l.ready_iff slot).2 (.inr lost)

theorem Ledger.isFound_unique (l : Ledger log m) (h : Consistent m) {slot : Nat}
    {place other : Whereabouts} (here : m.IsFound log.refused slot place)
    (there : m.IsFound log.refused slot other) : place = other := by
  have same := (l.status?_of_isFound h here).symm.trans (l.status?_of_isFound h there)
  cases place <;> cases other <;> cases same
  case queued.queued | running.running | finished.finished | lost.lost => rfl
  case queued.lost => exact absurd here (l.refused_unqueued slot there)
  case lost.queued => exact absurd there (l.refused_unqueued slot here)

theorem Ledger.existsUnique_isFound (l : Ledger log m) (h : Consistent m) {slot : Nat}
    {p : ProcessRecord} (found : m.procs[slot]? = some p) (early : p.arrival < m.now) :
    ∃! place, m.IsFound log.refused slot place := by
  refine existsUnique_of_exists_of_unique ?_ fun _ _ => l.isFound_unique h
  have status : m.status? slot = some p.status := status?_of_getElem? found
  cases stands : p.status with
  | waiting => exact absurd stands (l.enrolled slot p found early)
  | ready =>
    rcases (l.ready_iff slot).1 (status.trans (congrArg some stands)) with waits | lost
    · exact ⟨.queued, waits⟩
    · exact ⟨.lost, lost⟩
  | running cpu =>
    exact ⟨.running cpu, (h.matching cpu slot).2 (status.trans (congrArg some stands))⟩
  | completed => exact ⟨.finished, status.trans (congrArg some stands)⟩

/-- What the queue refused stays ready and is never dispatched again. -/
theorem Ledger.lost_steps (l : Ledger log m) (h : AtRest m)
    (policy : m.policy = .roundRobin quantum queue) {slot : Nat} (lost : slot ∈ log.refused)
    (k : Nat) : (m.steps k).status? slot = some .ready ∧ slot ∉ (m.turnLog k).dispatched := by
  have stays : ∀ k, slot ∈ (log.append (m.turnLog k)).refused :=
    fun k => List.mem_append_left _ lost
  refine ⟨((l.steps h policy k).ready_iff slot).2 (.inr (stays k)), ?_⟩
  induction k with
  | zero => exact List.not_mem_nil
  | succ k ih =>
    obtain ⟨later, policy'⟩ := h.policy_steps policy k
    have refused := List.mem_append_left (m.steps k).tickLog.refused (stays k)
    have unplaced := (l.steps h policy k).unplaced (h.steps k) policy' refused
    intro member
    rcases List.mem_append.1 member with before | served
    · exact ih before
    · rw [tickLog, policy'] at served
      exact unplaced (List.mem_append_left _ served)

/-- Round robin, from the first tick to any other, for any quantum and any capacity of the queue:
the dispatches so far and then the queue are what the queue took, in order; a process that has
arrived before is queued, on one processor, finished or lost; the lost ones, which the queue
refused, stay ready and are never dispatched; and they are as many as the machine counts. -/
theorem round_robin_turns (s : Scenario) (quantum capacity n : Nat) :
    let start := boot s (.fresh .roundRobin quantum capacity)
    let m := start.steps n
    let log := start.turnLog n
    log.dispatched ++ m.queued = log.accepted ∧
      m.trace.dispatchedPids.map some =
        log.dispatched.map (fun slot => s.jobs[slot]?.map (·.pid)) ∧
      (∀ slot p, m.procs[slot]? = some p → p.arrival < n →
        ∃! place, m.IsFound log.refused slot place) ∧
      (∀ slot ∈ log.refused, ∀ k, (m.steps k).status? slot = some .ready ∧
        slot ∉ (m.turnLog k).dispatched) ∧
      log.refused.Nodup ∧ m.dropped = log.refused.length := by
  intro start m log
  have rest : AtRest start := atRest_boot s .roundRobin quantum capacity
  have h : AtRest m := rest.steps n
  have l : Ledger log m := (ledger_boot s .roundRobin quantum capacity).steps rest rfl n
  obtain ⟨queue, policy⟩ := rest.policy_steps rfl n
  refine ⟨l.fifo, ?_, ?_, fun slot lost => l.lost_steps h policy lost, l.refused_nodup,
    l.dropped_eq⟩
  · rw [l.recorded, rest.jobs_steps n, jobs_boot]
  · intro slot p found early
    have now : m.now = n := (rest.now_steps n).trans (Nat.zero_add n)
    exact l.existsUnique_isFound h.toConsistent found (now ▸ early)

/-- In a queue of one place the process whose quantum is used up finds the arrival of the same tick
before it, and is lost. -/
theorem round_robin_turns_overflow :
    let start := boot shorterArrival (.fresh .roundRobin 1 1)
    0 ∈ (start.turnLog 2).refused ∧ (start.turnLog 2).dispatched = [0, 1] ∧
      (∃! place, (start.steps 2).IsFound (start.turnLog 2).refused 0 place) ∧
      ∀ k, ((start.steps 2).steps k).status? 0 = some .ready ∧
        0 ∉ ((start.steps 2).turnLog k).dispatched := by
  intro start
  have lost : 0 ∈ (start.turnLog 2).refused := by decide +kernel
  obtain ⟨p, found, early⟩ : ∃ p, (start.steps 2).procs[0]? = some p ∧ p.arrival < 2 := by
    decide +kernel
  obtain ⟨-, -, places, stays, -⟩ := round_robin_turns shorterArrival 1 1 2
  exact ⟨lost, by decide +kernel, places 0 p found early, stays 0 lost⟩

end Machine
end CpuScheduling
