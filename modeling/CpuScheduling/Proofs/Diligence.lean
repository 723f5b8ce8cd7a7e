import CpuScheduling.Proofs.Turns
/-!
Diligence. While a process that has arrived is unfinished and on no processor, no processor is
idle: always so under the policies that scan the table, and under round robin as long as the queue
has refused nobody.
-/
namespace CpuScheduling.Machine

/-- In the tick to come a processor is idle only if all that has arrived runs or has finished. -/
def Diligent (m : Machine) : Prop :=
  ∀ cpu, m.occupied.isIdleAt cpu = true → ∀ p ∈ m.occupied.procs, p.arrival ≤ m.now →
    p.status ≠ .waiting ∧ p.status ≠ .ready

/-- The same, but for some slots that are lost. -/
def DiligentBut (lost : List Nat) (m : Machine) : Prop :=
  ∀ cpu, m.occupied.isIdleAt cpu = true → ∀ slot ∉ lost, ∀ p, m.occupied.procs[slot]? = some p →
    p.arrival ≤ m.now → p.status ≠ .waiting ∧ p.status ≠ .ready

variable {m : Machine}

theorem Diligent.but (diligent : m.Diligent) (lost : List Nat) : m.DiligentBut lost :=
  fun cpu idle _ _ p found => diligent cpu idle p (List.mem_of_getElem? found)

theorem DiligentBut.diligent (diligent : m.DiligentBut []) : m.Diligent := by
  intro cpu idle p member
  obtain ⟨slot, found⟩ := List.mem_iff_getElem?.1 member
  exact diligent cpu idle slot List.not_mem_nil p found

/-! Policies that scan for what waits. -/

theorem AtRest.not_waiting_of_idle (h : AtRest m) (scans : m.policy.algorithm ≠ .roundRobin)
    {cpu : Nat} (idle : m.occupied.isIdleAt cpu = true) {p : ProcessRecord}
    (member : p ∈ m.occupied.procs) (arrived : p.arrival ≤ m.now) : p.status ≠ .waiting := by
  have no_queue : m.occupied.policy.queue? = none :=
    Policy.queue?_eq_none (h.algorithm_occupied ▸ scans)
  rw [← h.now_occupied] at arrived
  exact not_waiting_of_choose no_queue (h.idle_occupied idle).2 member arrived

theorem procs_rescheduled_of_unmarked (unmarked : m.policy.algorithm.marksReady = false) :
    m.rescheduled.procs = m.procs := by
  rw [rescheduled_of_unmarked unmarked, procs_enrolled]
  refine (List.map_congr_left fun p _ => ?_).trans (List.map_id m.procs)
  rw [ProcessRecord.enroll, unmarked]
  rfl

theorem now_rescheduled_of_unmarked (unmarked : m.policy.algorithm.marksReady = false) :
    m.rescheduled.now = m.now := by
  rw [rescheduled_of_unmarked unmarked]
  rfl

theorem status?_rescheduled_of_unmarked (unmarked : m.policy.algorithm.marksReady = false) :
    m.rescheduled.status? = m.status? := by
  unfold status?
  rw [procs_rescheduled_of_unmarked unmarked]

theorem AtRest.ready_of_occupied (h : AtRest m) (unmarked : m.policy.algorithm.marksReady = false)
    {slot : Nat} (ready : m.occupied.status? slot = some .ready) :
    m.status? slot = some .ready := by
  rw [← status?_rescheduled_of_unmarked unmarked]
  exact h.status?_rescheduled ready nofun

theorem AtRest.unready_step (h : AtRest m) (unmarked : m.policy.algorithm.marksReady = false)
    (unready : ∀ slot, m.status? slot ≠ some .ready) (slot : Nat) :
    m.step.status? slot ≠ some .ready := by
  intro ready
  have off : ∀ cpu, Status.ready ≠ .running cpu := nofun
  exact unready slot (h.ready_of_occupied unmarked ((h.status?_step slot off nofun).1 ready))

theorem AtRest.unready_steps (h : AtRest m) (unmarked : m.policy.algorithm.marksReady = false)
    (unready : ∀ slot, m.status? slot ≠ some .ready) (n slot : Nat) :
    (m.steps n).status? slot ≠ some .ready := by
  induction n generalizing slot with
  | zero => exact unready slot
  | succ n ih =>
    rw [steps_succ]
    exact (h.steps n).unready_step ((h.algorithm_steps n).symm ▸ unmarked) ih slot

theorem AtRest.diligent_of_unmarked (h : AtRest m)
    (unmarked : m.policy.algorithm.marksReady = false)
    (unready : ∀ slot, m.status? slot ≠ some .ready) : m.Diligent := by
  have scans : m.policy.algorithm ≠ .roundRobin := by
    intro turns
    rw [turns] at unmarked
    cases unmarked
  intro cpu idle p member arrived
  refine ⟨h.not_waiting_of_idle scans idle member arrived, fun ready => ?_⟩
  obtain ⟨slot, found⟩ := List.mem_iff_getElem?.1 member
  exact unready slot (h.ready_of_occupied unmarked (status?_eq_some.2 ⟨p, found, ready⟩))

theorem AtRest.diligent_of_srtf (h : AtRest m) (shortest : m.policy.algorithm = .srtf) :
    m.Diligent := by
  have policy := Policy.eq_srtf_of_algorithm_eq shortest
  have scans : m.policy.algorithm ≠ .roundRobin := by
    rw [policy]
    exact nofun
  have none_left : m.rescheduled.preemption? = none := by
    rw [rescheduled_eq, policy]
    exact preemption?_preempt h.consistent_enqueued.matching
  intro cpu idle p member arrived
  refine ⟨h.not_waiting_of_idle scans idle member arrived, fun ready => ?_⟩
  obtain ⟨slot, found⟩ := List.mem_iff_getElem?.1 member
  have before := h.status?_rescheduled (status?_eq_some.2 ⟨p, found, ready⟩) nofun
  obtain ⟨q, found', ready'⟩ := status?_eq_some.1 before
  refine not_ready_of_idle none_left (h.idle_occupied idle).1 (List.mem_of_getElem? found') ?_ ready'
  exact h.consistent_rescheduled.arrived_of_ready found' ready'

/-! Round robin. -/

theorem Ledger.diligentBut {log : TurnLog} (l : Ledger log m) (h : AtRest m) {quantum : Nat}
    {queue : ReadyQueue} (policy : m.policy = .roundRobin quantum queue) :
    m.DiligentBut (log.append m.tickLog).refused := by
  have next := l.step h policy
  intro cpu idle slot kept p found arrived
  have empty : m.step.queued = [] := by
    rw [queued_step]
    exact queued_eq_nil_of_choose (h.idle_occupied idle).2
  refine ⟨fun waiting => ?_, fun ready => ?_⟩
  · have off : ∀ cpu, Status.waiting ≠ .running cpu := nofun
    have stands := (h.status?_step slot off nofun).2 (status?_eq_some.2 ⟨p, found, waiting⟩)
    obtain ⟨q, found', waiting'⟩ := status?_eq_some.1 stands
    have same_jobs : m.occupied.jobs = m.step.jobs := h.jobs_occupied.trans h.jobs_step.symm
    have arrival : p.arrival = q.arrival :=
      congrArg (·.arrival) (toJob_eq_of_jobs_eq same_jobs found found')
    refine next.enrolled slot q found' ?_ waiting'
    rw [h.now_step, ← arrival]
    exact Nat.lt_succ_of_le arrived
  · have off : ∀ cpu, Status.ready ≠ .running cpu := nofun
    have stands := (h.status?_step slot off nofun).2 (status?_eq_some.2 ⟨p, found, ready⟩)
    rcases (next.ready_iff slot).1 stands with waits | lost
    · rw [empty] at waits
      cases waits
    · exact kept lost

/-! Runs. -/

/-- Without a queue nothing is refused. -/
theorem AtRest.refused_turnLog (h : AtRest m) (scans : m.policy.algorithm ≠ .roundRobin)
    (n : Nat) : (m.turnLog n).refused = [] := by
  induction n with
  | zero => rfl
  | succ n ih =>
    have refused : (m.steps n).tickLog.refused = [] := by
      have algorithm := h.algorithm_steps n
      unfold tickLog
      cases policy : (m.steps n).policy with
      | roundRobin =>
        rw [policy] at algorithm
        exact absurd algorithm.symm scans
      | fcfs | srtf | sjf => rfl
    rw [turnLog, TurnLog.append, ih, refused]
    rfl

theorem Ledger.refused_turnLog (l : Ledger {} m) (h : AtRest m) {quantum : Nat}
    {queue : ReadyQueue} (policy : m.policy = .roundRobin quantum queue)
    (room : m.procs.length ≤ queue.capacity) (n : Nat) : (m.turnLog n).refused = [] := by
  induction n with
  | zero => rfl
  | succ n ih =>
    obtain ⟨later, policy'⟩ := h.policy_steps policy n
    have room' : (m.steps n).procs.length ≤ later.capacity := by
      rw [h.capacity_steps policy policy', h.length_procs_steps]
      exact room
    rw [turnLog, refused_append_tickLog policy', ih,
      (l.steps h policy n).refused_of_room (h.steps n) policy' room']
    rfl

/-- Every tick of a run is diligent but for what the queue has refused up to it. -/
theorem AtRest.diligentBut_steps (h : AtRest m) (l : Ledger {} m) (n : Nat) :
    (m.steps n).DiligentBut (m.turnLog (n + 1)).refused := by
  have algorithm := h.algorithm_steps n
  have unready : ∀ slot, m.status? slot ≠ some .ready := by
    intro slot ready
    rcases (l.ready_iff slot).1 ready with waits | lost
    · have empty : m.queued = [] := l.fifo
      rw [empty] at waits
      cases waits
    · cases lost
  cases policy : m.policy with
  | roundRobin quantum queue =>
    obtain ⟨later, policy'⟩ := h.policy_steps policy n
    exact (l.steps h policy n).diligentBut (h.steps n) policy'
  | srtf =>
    refine ((h.steps n).diligent_of_srtf ?_).but _
    rw [algorithm, policy]
    rfl
  | fcfs | sjf =>
    refine ((h.steps n).diligent_of_unmarked ?_ (h.unready_steps ?_ unready n)).but _
    · rw [algorithm, policy]
      rfl
    · rw [policy]
      rfl

/-- A run is diligent in each of its ticks if in the end no slot has been refused. -/
theorem AtRest.diligent_steps (h : AtRest m) (l : Ledger {} m) {n k : Nat} (before : n < k)
    (undropped : (m.steps k).dropped = 0) : (m.steps n).Diligent := by
  have kept : (m.turnLog (n + 1)).refused = [] := by
    by_cases turns : m.policy.algorithm = .roundRobin
    · obtain ⟨quantum, queue, policy⟩ := Policy.eq_roundRobin_of_algorithm_eq turns
      obtain ⟨d, rfl⟩ := Nat.exists_eq_add_of_le before
      have grows := h.dropped_steps_le policy (n + 1) d
      rw [(l.steps h policy (n + 1)).dropped_eq] at grows
      exact List.eq_nil_of_length_eq_zero (Nat.le_zero.1 (undropped ▸ grows))
    · exact h.refused_turnLog turns (n + 1)
  exact (kept ▸ h.diligentBut_steps l n).diligent

end CpuScheduling.Machine
