import CpuScheduling.Proofs.Rows
/-!
Conservation of work. In every tick as many processors are busy as there are processors, or
processes that could use one, whichever is less.
-/
namespace CpuScheduling.Machine
variable {m : Machine}

/-! Processors that hold a process, and processes that run. -/

def isRunningAt (m : Machine) (slot : Nat) : Bool := m.procs[slot]?.any (·.isRunning)

theorem isRunningAt_iff {slot : Nat} :
    m.isRunningAt slot = true ↔ ∃ cpu, m.status? slot = some (.running cpu) := by
  simp only [isRunningAt, Option.any_eq_true, ProcessRecord.isRunning_iff, status?_eq_some]
  constructor
  · rintro ⟨p, found, cpu, running⟩
    exact ⟨cpu, p, found, running⟩
  · rintro ⟨cpu, p, found, running⟩
    exact ⟨p, found, cpu, running⟩

/-- The slots that processors hold, in the order of processors. -/
def heldSlots (m : Machine) : List Nat := (List.range m.cpus.size).filterMap m.held

theorem mem_heldSlots {slot : Nat} : slot ∈ m.heldSlots ↔ ∃ cpu, m.held cpu = some slot := by
  rw [heldSlots, List.mem_filterMap]
  constructor
  · rintro ⟨cpu, -, holds⟩
    exact ⟨cpu, holds⟩
  · rintro ⟨cpu, holds⟩
    exact ⟨cpu, List.mem_range.2 (held_lt holds), holds⟩

theorem Consistent.nodup_heldSlots (h : Consistent m) : m.heldSlots.Nodup := by
  refine List.nodup_range.filterMap fun cpu cpu' slot holds holds' => ?_
  have runs := (h.matching cpu slot).1 (Option.mem_def.1 holds)
  have runs' := (h.matching cpu' slot).1 (Option.mem_def.1 holds')
  exact Status.running.inj (Option.some.inj (runs.symm.trans runs'))

/-- The processes that run are those that processors hold, each by one. -/
theorem Consistent.heldSlots_perm (h : Consistent m) :
    m.heldSlots.Perm ((List.range m.procs.length).filter m.isRunningAt) := by
  refine (List.perm_ext_iff_of_nodup h.nodup_heldSlots (List.nodup_range.filter _)).2 fun slot => ?_
  rw [mem_heldSlots, List.mem_filter, List.mem_range, isRunningAt_iff]
  constructor
  · rintro ⟨cpu, holds⟩
    obtain ⟨p, found, -⟩ := h.slot_lt_of_held holds
    exact ⟨(List.getElem?_eq_some_iff.1 found).1, cpu, (h.matching cpu slot).1 holds⟩
  · rintro ⟨-, cpu, runs⟩
    exact ⟨cpu, (h.matching cpu slot).2 runs⟩

theorem Consistent.isSome_running (h : Consistent m) (cpu : Nat) :
    (m.running cpu).isSome = (m.held cpu).isSome := by
  rw [running_eq]
  cases holds : m.held cpu with
  | none => rw [occupant?_eq_none holds]; rfl
  | some slot =>
    obtain ⟨p, found, -⟩ := h.slot_lt_of_held holds
    rw [occupant?_eq_some.2 ⟨holds, found⟩]
    rfl

theorem Consistent.countP_occupancy (h : Consistent m) :
    m.occupancy.countP (·.isSome) = m.heldSlots.length := by
  rw [occupancy_eq, List.countP_map, heldSlots, List.length_filterMap_eq_countP]
  exact List.countP_congr fun cpu _ => by simp only [Function.comp_apply, h.isSome_running]

theorem length_heldSlots_le (m : Machine) : m.heldSlots.length ≤ m.cpus.size := by
  rw [heldSlots, List.length_filterMap_eq_countP]
  exact List.countP_le_length.trans_eq List.length_range

theorem length_heldSlots_of_busy (busy : ∀ cpu, m.isIdleAt cpu = false) :
    m.heldSlots.length = m.cpus.size := by
  have all : (List.range m.cpus.size).countP (fun cpu => (m.held cpu).isSome) = m.cpus.size := by
    refine Eq.trans (List.countP_eq_length.2 fun cpu member => ?_) List.length_range
    cases holds : m.held cpu with
    | some slot => rfl
    | none =>
      have idle := isIdleAt_iff.2 ⟨List.mem_range.1 member, holds⟩
      rw [busy cpu] at idle
      cases idle
  rw [heldSlots, List.length_filterMap_eq_countP]
  exact all

/-! Processes that could run. -/

/-- Whether the process of a slot could use a processor in tick `t` of a run: it has arrived, it
was unfinished when the tick began, and the queue has not refused it up to this tick. -/
def isEligible (start : Machine) (t slot : Nat) : Bool :=
  (start.steps t).procs[slot]?.any (fun p => p.arrivedBy (start.now + t) && !p.isCompleted) &&
    decide (slot ∉ (start.turnLog (t + 1)).refused)

/-- The slots of the processes that could use a processor in tick `t` of a run. -/
def eligible (start : Machine) (t : Nat) : List Nat :=
  (List.range start.procs.length).filter (start.isEligible t)

theorem isEligible_iff {t slot : Nat} : m.isEligible t slot = true ↔
    slot ∉ (m.turnLog (t + 1)).refused ∧ ∃ p, (m.steps t).procs[slot]? = some p ∧
      p.arrival ≤ m.now + t ∧ p.status ≠ .completed := by
  simp only [isEligible, Bool.and_eq_true, Option.any_eq_true, ProcessRecord.arrivedBy,
    ProcessRecord.isCompleted, decide_eq_true_eq, Bool.not_eq_true', decide_eq_false_iff_not]
  exact and_comm

theorem AtRest.length_procs_occupied (h : AtRest m) :
    m.occupied.procs.length = m.procs.length := by
  have same := congrArg List.length h.accounts_occupied
  simpa only [accounts, List.length_map] using same

section Run
variable (h : AtRest m) (l : Ledger {} m) (t : Nat)
include h l

/-- Who is refused up to a tick is ready after it. -/
theorem AtRest.ready_of_refused {slot : Nat} (lost : slot ∈ (m.turnLog (t + 1)).refused) :
    (m.steps t).occupied.status? slot = some .ready := by
  have off : ∀ cpu, Status.ready ≠ .running cpu := nofun
  rw [← (h.steps t).status?_step slot off nofun, ← steps_succ]
  cases policy : m.policy with
  | roundRobin quantum queue =>
    exact ((l.steps h policy (t + 1)).ready_iff slot).2 (.inr lost)
  | fcfs | srtf | sjf =>
    rw [h.refused_turnLog (by rw [policy]; exact nofun)] at lost
    cases lost

theorem AtRest.eligible_of_running {slot : Nat}
    (runs : (m.steps t).occupied.isRunningAt slot = true) : m.isEligible t slot = true := by
  have rest := h.steps t
  obtain ⟨cpu, at_cpu⟩ := isRunningAt_iff.1 runs
  obtain ⟨q, found, running⟩ := status?_eq_some.1 at_cpu
  obtain ⟨p, found', same⟩ := exists_account_eq rest.accounts_occupied found
  refine isEligible_iff.2 ⟨fun lost => ?_, p, found', ?_, fun done => ?_⟩
  · rw [h.ready_of_refused l t lost] at at_cpu
    cases at_cpu
  · have arrived := rest.consistent_occupied.arrived_of_running found running
    rw [rest.now_occupied, h.now_steps] at arrived
    exact (congrArg (·.job.arrival) same).trans_le arrived
  · have going : p.isCompleted = q.isCompleted := congrArg (·.completed) same
    simp [ProcessRecord.isCompleted, done, running] at going

/-- If a processor is idle, then who could run does. -/
theorem AtRest.running_of_eligible {slot cpu : Nat}
    (idle : (m.steps t).occupied.isIdleAt cpu = true) (could : m.isEligible t slot = true) :
    (m.steps t).occupied.isRunningAt slot = true := by
  have rest := h.steps t
  obtain ⟨kept, p, found, arrived, going⟩ := isEligible_iff.1 could
  obtain ⟨q, found', same⟩ := exists_account_eq rest.accounts_occupied.symm found
  have arrival : q.arrival = p.arrival := congrArg (·.job.arrival) same
  obtain ⟨not_waiting, not_ready⟩ := h.diligentBut_steps l t cpu idle slot kept q found'
    (by rw [arrival, h.now_steps]; exact arrived)
  rw [isRunningAt_iff, status?_of_getElem? found']
  cases stands : q.status with
  | waiting => exact absurd stands not_waiting
  | ready => exact absurd stands not_ready
  | running cpu => exact ⟨cpu, rfl⟩
  | completed =>
    have done : q.isCompleted = p.isCompleted := congrArg (·.completed) same
    simp [ProcessRecord.isCompleted, stands, going] at done

/-- In every tick the processors that hold a process are as many as there are processors or
eligible processes, whichever is less. -/
theorem AtRest.length_heldSlots :
    (m.steps t).occupied.heldSlots.length = min m.cpus.size (m.eligible t).length := by
  have rest := h.steps t
  have size : (m.steps t).occupied.cpus.size = m.cpus.size :=
    rest.size_cpus_occupied.trans (h.size_cpus_steps t)
  have procs : (m.steps t).occupied.procs.length = m.procs.length :=
    rest.length_procs_occupied.trans (h.length_procs_steps t)
  have running : (m.steps t).occupied.heldSlots.length =
      (List.range m.procs.length).countP (m.steps t).occupied.isRunningAt := by
    rw [rest.consistent_occupied.heldSlots_perm.length_eq, procs, List.countP_eq_length_filter]
  have could : (m.eligible t).length = (List.range m.procs.length).countP (m.isEligible t) := by
    rw [eligible, List.countP_eq_length_filter]
  have bound := (m.steps t).occupied.length_heldSlots_le
  have upto : (m.steps t).occupied.heldSlots.length ≤ (m.eligible t).length := by
    rw [running, could]
    exact List.countP_mono_left fun slot _ => h.eligible_of_running l t
  by_cases idle : ∃ cpu, (m.steps t).occupied.isIdleAt cpu = true
  · obtain ⟨cpu, idle⟩ := idle
    have all : (m.eligible t).length ≤ (m.steps t).occupied.heldSlots.length := by
      rw [running, could]
      exact List.countP_mono_left fun slot _ => h.running_of_eligible l t idle
    omega
  · have busy : ∀ cpu, (m.steps t).occupied.isIdleAt cpu = false := by simpa using idle
    have full := length_heldSlots_of_busy busy
    omega

end Run

/-- Row `t` of a run shows as many processes as there are processors or processes that could use
one, whichever is less; and if it shows an idle processor, then all that could run do. -/
def ConservesWork (start final : Machine) (t : Nat) : Prop :=
  ∃ row, final.timeline.row (start.now + t) = some row ∧ row.length = start.cpus.size ∧
    row.countP (·.isSome) = min start.cpus.size (start.eligible t).length ∧
    (none ∈ row → ∀ slot ∈ start.eligible t, ∃ cpu, (start.steps t).occupied.held cpu = some slot)

theorem AtRest.conservesWork (h : AtRest m) (l : Ledger {} m) (c : Charted m) {t n : Nat}
    (early : t < n) : ConservesWork m (m.steps n) t := by
  have rest := h.steps t
  have size : (m.steps t).occupied.cpus.size = m.cpus.size :=
    rest.size_cpus_occupied.trans (h.size_cpus_steps t)
  refine ⟨_, c.row_steps h early, (length_occupancy _).trans size, ?_, fun gap slot could => ?_⟩
  · rw [rest.consistent_occupied.countP_occupancy, h.length_heldSlots l t]
  · rw [occupancy_eq] at gap
    obtain ⟨cpu, inside, blank⟩ := List.mem_map.1 gap
    have free : (m.steps t).occupied.held cpu = none := by
      rw [← Option.isNone_iff_eq_none, ← Option.not_isSome,
        ← rest.consistent_occupied.isSome_running, blank]
      rfl
    have idle := isIdleAt_iff.2 ⟨List.mem_range.1 inside, free⟩
    have runs := h.running_of_eligible l t idle (List.mem_filter.1 could).2
    obtain ⟨cpu', at_cpu⟩ := isRunningAt_iff.1 runs
    exact ⟨cpu', (rest.consistent_occupied.matching cpu' slot).2 at_cpu⟩

/-- Under every policy, quantum and queue capacity, and in every tick of a simulation as well, as
many processors are busy as there are processors or eligible processes, whichever is less; so no
processor is idle while an eligible process is on none. -/
theorem work_conservation (s : Scenario) :
    (∀ algorithm quantum capacity n, ∀ t < n,
      let start := boot s (.fresh algorithm quantum capacity)
      ConservesWork start (start.steps n) t) ∧
    ∀ d : Discipline, ∀ t < (simulate d s).totalTicks,
      ConservesWork (begun d s) (simulate d s).machine t := by
  constructor
  · intro algorithm quantum capacity n t early
    exact (atRest_boot s algorithm quantum capacity).conservesWork
      (ledger_boot s algorithm quantum capacity) (charted_boot s _) early
  · intro d t
    obtain ⟨k, -, outcome, -⟩ := simulate_eq d s
    rw [outcome]
    intro early
    have ticks : ((begun d s).steps k).now = k :=
      ((atRest_begun d s).now_steps k).trans (Nat.zero_add k)
    exact (atRest_begun d s).conservesWork (ledger_begun d s) (charted_begun d s)
      (ticks ▸ early : t < k)

/-- A process that a queue of one place has refused leaves the only processor idle for ever. -/
theorem work_conservation_lost :
    let start := boot shorterArrival (.fresh .roundRobin 1 1)
    (start.steps 2).status? 0 = some .ready ∧ start.eligible 1 = [1] ∧ start.eligible 2 = [] ∧
      ConservesWork start (start.steps 3) 1 ∧ ConservesWork start (start.steps 3) 2 ∧
      1 < (simulate ⟨.srtf, 2⟩ shorterArrival).totalTicks ∧
      ConservesWork (begun ⟨.srtf, 2⟩ shorterArrival)
        (simulate ⟨.srtf, 2⟩ shorterArrival).machine 1 := by
  intro start
  have ticks : 1 < (simulate ⟨.srtf, 2⟩ shorterArrival).totalTicks := by decide +kernel
  obtain ⟨steps, runs⟩ := work_conservation shorterArrival
  exact ⟨by decide +kernel, by decide +kernel, by decide +kernel,
    steps .roundRobin 1 1 3 1 (by decide), steps .roundRobin 1 1 3 2 (by decide), ticks,
    runs ⟨.srtf, 2⟩ 1 ticks⟩

end CpuScheduling.Machine
