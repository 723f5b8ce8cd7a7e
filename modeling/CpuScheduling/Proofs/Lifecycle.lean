import CpuScheduling.Proofs.Comparison
import CpuScheduling.Proofs.Conservation
import CpuScheduling.Proofs.Dispatches
import CpuScheduling.Proofs.Slices
/-!
The life of a process. It is admitted when it arrives, starts with its first dispatch, has one unit
of work less after each tick on a processor, and is finished when none is left; what is written
once stays. Which of the standings it passes through depends on the policy.
-/
namespace CpuScheduling

namespace ProcessRecord

/-- A process responds when it starts. -/
def Responsive (p : ProcessRecord) : Prop := p.response = p.start.map (· - p.arrival)

theorem enduring_responsive : Enduring Responsive where
  stand _ _ _ responsive := responsive
  dispatch p cpu now responsive := by
    unfold Responsive at responsive ⊢
    unfold dispatch
    cases started : p.start with
    | none => rfl
    | some t =>
      rw [started] at responsive
      exact responsive
  pass p now responsive := by
    unfold Responsive at responsive ⊢
    unfold pass work ageWaiting
    dsimp only
    split <;> split <;> exact responsive

end ProcessRecord

/-- Whether the arrivals of the tick are still to be admitted. -/
def Machine.Stage.beforeArrivals : Machine.Stage → Bool
  | .rest | .stamped => true
  | .enrolled | .enqueued | .rescheduled | .occupied | .shown | .aged | .worked => false

namespace Machine
variable {m : Machine} {slot cpu : Nat} {p : ProcessRecord}

/-! One tick, at all of its stages. -/

/-- The standings change only when arrivals are admitted, when processors are taken away, when they
are given, and when the work is done. -/
theorem forall_stage {P : (Nat → Option Status) → Prop} {stage : Stage}
    (before : stage.beforeArrivals = true → P m.status?) (enrolled : P m.enrolled.status?)
    (rescheduled : P m.rescheduled.status?) (occupied : P m.occupied.status?)
    (after : P m.step.status?) : P (m.stage stage).status? := by
  cases stage with
  | rest | stamped => exact before rfl
  | enrolled => exact enrolled
  | enqueued => exact m.status?_enqueued ▸ enrolled
  | rescheduled => exact rescheduled
  | occupied | shown => exact occupied
  | aged =>
    have aged : m.aged.status? = m.occupied.status? := m.shown.status?_ageWaiting
    exact aged ▸ occupied
  | worked => exact after

theorem AtRest.completed_step (rest : AtRest m) (done : m.status? slot = some .completed) :
    m.occupied.status? slot = some .completed ∧ m.step.status? slot = some .completed := by
  obtain ⟨p, found, completed⟩ := status?_eq_some.1 done
  exact ⟨status?_eq_some.2 ⟨p, rest.getElem?_occupied_of_completed found completed, completed⟩,
    status?_eq_some.2 ⟨p, rest.getElem?_step_of_completed found completed, completed⟩⟩

/-- Who has a processor at the row of a tick has it after the tick or has finished. -/
theorem AtRest.status?_step_of_running (rest : AtRest m)
    (runs : m.occupied.status? slot = some (.running cpu)) :
    m.step.status? slot = some (.running cpu) ∨ m.step.status? slot = some .completed := by
  obtain ⟨p, found, running⟩ := status?_eq_some.1 runs
  have after : m.step.status? slot = some (p.pass m.now).status := by
    rw [status?, rest.procs_step, List.getElem?_map, found]
    rfl
  rw [after, ProcessRecord.pass, if_pos (ProcessRecord.isRunning_iff.2 ⟨cpu, running⟩),
    p.status_work, running]
  split
  · exact .inr rfl
  · exact .inl rfl

/-- A tick takes a unit of work from who has a processor at its row, and from nobody else. -/
theorem AtRest.remaining_step_add (rest : AtRest m) (balanced : m.Balanced) {q : ProcessRecord}
    (before : m.procs[slot]? = some p) (after : m.step.procs[slot]? = some q) :
    q.remaining + (if m.occupied.isRunningAt slot then 1 else 0) = p.remaining := by
  rw [rest.procs_step, List.getElem?_map] at after
  obtain ⟨r, shown, rfl⟩ := Option.map_eq_some_iff.1 after
  obtain ⟨p', before', same⟩ := exists_account_eq rest.accounts_occupied shown
  obtain rfl : p = p' := Option.some.inj (before.symm.trans before')
  have runs : m.occupied.isRunningAt slot = r.isRunning := by
    rw [isRunningAt, shown]
    rfl
  have left : p.remaining = r.remaining := congrArg (·.remaining) same
  rw [runs, left]
  exact r.remaining_pass_add _ (rest.work_left_of_running balanced (List.mem_of_getElem? shown))

/-! Policies that mark nobody. -/
section Unmarked
variable (unmarked : m.policy.algorithm.marksReady = false)
include unmarked

theorem status?_enrolled_of_unmarked : m.enrolled.status? = m.status? := by
  rw [← rescheduled_of_unmarked unmarked, status?_rescheduled_of_unmarked unmarked]

theorem held_occupied_of_unmarked (holds : m.held cpu = some slot) :
    m.occupied.held cpu = some slot := by
  have kept : m.rescheduled.held cpu = some slot := by
    rw [rescheduled_of_unmarked unmarked]
    exact holds
  have busy : m.rescheduled.isIdleAt cpu = false := by
    refine Bool.eq_false_iff.2 fun idle => ?_
    rw [(isIdleAt_iff.1 idle).2] at kept
    cases kept
  exact (held_occupyThese _ m.rescheduled (.inr busy)).trans kept

variable (rest : AtRest m)
include rest

theorem AtRest.unready_stage (unready : ∀ slot, m.status? slot ≠ some .ready) (stage : Stage)
    (slot : Nat) : (m.stage stage).status? slot ≠ some .ready := by
  refine forall_stage (P := fun stands => stands slot ≠ some .ready) (fun _ => unready slot) ?_ ?_
    (fun ready => unready slot (rest.ready_of_occupied unmarked ready))
    (rest.unready_step unmarked unready slot)
  · rw [status?_enrolled_of_unmarked unmarked]
    exact unready slot
  · rw [status?_rescheduled_of_unmarked unmarked]
    exact unready slot

/-- Who has a processor before a tick keeps it through all stages of the tick, up to its finish. -/
theorem AtRest.stays_stage
    (stands : m.status? slot = some (.running cpu) ∨ m.status? slot = some .completed)
    (stage : Stage) : (m.stage stage).status? slot = some (.running cpu) ∨
      (m.stage stage).status? slot = some .completed := by
  have shown : m.occupied.status? slot = some (.running cpu) ∨
      m.occupied.status? slot = some .completed := by
    refine stands.imp (fun runs => ?_) fun done => (rest.completed_step done).1
    rw [← rest.consistent_occupied.matching]
    exact held_occupied_of_unmarked unmarked ((rest.matching cpu slot).2 runs)
  have after : m.step.status? slot = some (.running cpu) ∨
      m.step.status? slot = some .completed := by
    rcases stands with runs | done
    · have holds := held_occupied_of_unmarked unmarked ((rest.matching cpu slot).2 runs)
      exact rest.status?_step_of_running ((rest.consistent_occupied.matching cpu slot).1 holds)
    · exact .inr (rest.completed_step done).2
  refine forall_stage (P := fun f => f slot = some (.running cpu) ∨ f slot = some .completed)
    (fun _ => stands) ?_ ?_ shown after
  · rw [status?_enrolled_of_unmarked unmarked]
    exact stands
  · rw [status?_rescheduled_of_unmarked unmarked]
    exact stands

end Unmarked

/-! Round robin. -/

/-- Who has been admitted does not wait. -/
theorem Ledger.enrolled_stage {log : TurnLog} (l : Ledger log m) (rest : AtRest m) {quantum : Nat}
    {queue : ReadyQueue} (policy : m.policy = .roundRobin quantum queue)
    (found : m.procs[slot]? = some p) {stage : Stage}
    (admitted : p.arrival < m.now ∨ p.arrival = m.now ∧ stage.beforeArrivals = false) :
    (m.stage stage).status? slot ≠ some .waiting := by
  have marks : m.policy.algorithm.marksReady = true := by rw [policy]; rfl
  have off : ∀ cpu, Status.waiting ≠ .running cpu := nofun
  have arrived : p.arrival ≤ m.now := admitted.elim Nat.le_of_lt fun now => now.1.le
  have enrolled : m.enrolled.status? slot ≠ some .waiting := by
    intro waits
    obtain ⟨q, found', waiting⟩ := status?_eq_some.1 waits
    have same := toJob_eq_of_jobs_eq (jobs_eq_of_accounts_eq m.accounts_enrolled) found' found
    have arrived' : q.arrival ≤ m.now := (congrArg (·.arrival) same).trans_le arrived
    refine rest.marked_enrolled marks ?_ q (List.mem_of_getElem? found') arrived' waiting
    intro r member early
    obtain ⟨s, at_s⟩ := List.mem_iff_getElem?.1 member
    exact l.enrolled s r at_s early
  have rescheduled : m.rescheduled.status? slot ≠ some .waiting := by
    rw [rescheduled_eq_endSlices policy, status?_endSlices rest.consistent_enqueued,
      status?_enqueued]
    split
    · exact nofun
    · exact enrolled
  have occupied : m.occupied.status? slot ≠ some .waiting :=
    fun waits => rescheduled (rest.status?_rescheduled waits off)
  refine forall_stage (P := fun stands => stands slot ≠ some .waiting) ?_ enrolled rescheduled
    occupied fun waits => occupied ((rest.status?_step slot off nofun).1 waits)
  intro early
  rw [early] at admitted
  rw [status?_of_getElem? found]
  have before : p.arrival < m.now := admitted.resolve_right (by simp)
  exact fun waits => l.enrolled slot p found before (Option.some.inj waits)

/-! Shortest remaining time. -/

theorem Converged.orderly_stage (conv : Converged m) (rest : AtRest m) (srtf : m.policy = .srtf)
    (stage : Stage) : (m.stage stage).Orderly := by
  have no_queue : m.policy.queue? = none := by rw [srtf]; rfl
  have enrolled : m.enrolled.Orderly := (Contest.start rest conv no_queue).orderly
  have rescheduled : m.rescheduled.Orderly := (conv.rescheduled rest srtf).1.orderly
  have occupied : m.occupied.Orderly := rescheduled.occupyThese _
  cases stage with
  | rest | stamped => exact conv.orderly
  | enrolled => exact enrolled
  | enqueued =>
    show m.enqueued.Orderly
    rw [enqueued_eq_enrolled no_queue]
    exact enrolled
  | rescheduled => exact rescheduled
  | occupied | shown => exact occupied
  | aged =>
    intro q member
    obtain ⟨p, before, rfl⟩ := List.mem_map.1 member
    exact (occupied p before).ageWaiting _
  | worked => exact (conv.step rest srtf).orderly

/-! Runs. -/

/-- A machine before the first tick of a run. -/
structure Outset (start : Machine) : Prop extends AtRest start where
  zero : start.now = 0
  blank : start.trace = #[]
  fresh : ∀ p ∈ start.procs, p = p.toJob.toRecord
  balanced : start.Balanced
  ledger : Ledger {} start
  converged : Converged start

/-- The laws for the process of one slot in a run, after `n` ticks and at all stages of the next. -/
structure Lifecycle (algorithm : Algorithm) (start : Machine) (n slot : Nat)
    (p : ProcessRecord) : Prop where
  admitted : ∀ t, slot ∈ (start.steps t).arriving ↔ p.arrival = t
  marked : algorithm.marksReady = true →
    (start.steps p.arrival).enrolled.status? slot = some .ready
  untouched : n ≤ p.arrival → p = p.toJob.toRecord
  arrived : ∀ d ∈ start.dispatchesOf n slot, p.arrival ≤ d.tick
  completed_iff : p.status = .completed ↔ p.remaining = 0
  finish_iff : p.finish.isSome = true ↔ p.remaining = 0
  /-- No field changes after the finish. -/
  final : p.status = .completed → ∀ k, (start.steps (n + k)).procs[slot]? = some p
  start_eq : p.start = (start.dispatchesOf n slot).head?.map (·.tick)
  response_eq : p.response = p.start.map (· - p.arrival)
  /-- Start and response are written once. -/
  once : p.start.isSome = true → ∀ k q, (start.steps (n + k)).procs[slot]? = some q →
    q.start = p.start ∧ q.response = p.response
  works : ∀ q, (start.steps (n + 1)).procs[slot]? = some q →
    q.remaining + (if (start.steps n).occupied.isRunningAt slot then 1 else 0) = p.remaining
  unready : algorithm = .fcfs ∨ algorithm = .sjf →
    ∀ stage, ((start.steps n).stage stage).status? slot ≠ some .ready
  /-- Who runs at the row of the tick runs on the same processor at all stages of all later ticks,
  or has completed. -/
  stays : algorithm = .fcfs ∨ algorithm = .sjf → ∀ cpu,
    (start.steps n).occupied.status? slot = some (.running cpu) → ∀ k stage,
      ((start.steps (n + k + 1)).stage stage).status? slot = some (.running cpu) ∨
        ((start.steps (n + k + 1)).stage stage).status? slot = some .completed
  queues : algorithm = .roundRobin → ∀ stage,
    p.arrival < n ∨ p.arrival = n ∧ stage.beforeArrivals = false →
      ((start.steps n).stage stage).status? slot ≠ some .waiting
  contends : algorithm = .srtf → ∀ stage q, ((start.steps n).stage stage).procs[slot]? = some q →
    q.start.isSome = true → q.status ≠ .ready

section Laws
variable {start : Machine} (o : Outset start) {n : Nat}
  (found : (start.steps n).procs[slot]? = some p)
include o

theorem Outset.now_steps (n : Nat) : (start.steps n).now = n := by
  rw [o.toAtRest.now_steps, o.zero, Nat.zero_add]

theorem Outset.dispatched (n : Nat) : Dispatched start n :=
  o.toAtRest.dispatched o.zero o.blank o.fresh (fun _ => o.converged) n

theorem Outset.unready (slot : Nat) : start.status? slot ≠ some .ready := by
  intro ready
  obtain ⟨p, found, ready⟩ := status?_eq_some.1 ready
  rw [o.fresh p (List.mem_of_getElem? found)] at ready
  cases ready

theorem Outset.stays (unmarked : start.policy.algorithm.marksReady = false) {n : Nat}
    (runs : (start.steps n).occupied.status? slot = some (.running cpu)) (k : Nat) :
    (start.steps (n + k + 1)).status? slot = some (.running cpu) ∨
      (start.steps (n + k + 1)).status? slot = some .completed := by
  induction k with
  | zero =>
    rw [Nat.add_zero, steps_succ]
    exact (o.toAtRest.steps n).status?_step_of_running runs
  | succ k ih =>
    have unmarked' := (o.toAtRest.algorithm_steps (n + k + 1)).symm ▸ unmarked
    rw [← Nat.add_assoc, steps_succ]
    exact (o.toAtRest.steps (n + k + 1)).stays_stage unmarked' ih .worked

include found

theorem Outset.mem_arriving_iff (t : Nat) : slot ∈ (start.steps t).arriving ↔ p.arrival = t := by
  obtain ⟨q, found', same⟩ := o.toAtRest.exists_record found t
  have arrival : q.arrival = p.arrival := congrArg (·.arrival) same
  rw [mem_arriving, o.now_steps, ← arrival]
  constructor
  · rintro ⟨r, at_slot, at_once⟩
    obtain rfl : q = r := Option.some.inj (found'.symm.trans at_slot)
    exact at_once
  · exact fun at_once => ⟨q, found', at_once⟩

theorem Outset.arrived_of_dispatchesOf {d : Event} (member : d ∈ start.dispatchesOf n slot) :
    p.arrival ≤ d.tick := by
  have rest := o.toAtRest.steps d.tick
  have holds := of_decide_eq_true (List.mem_filter.1 member).2
  obtain ⟨r, shown, running⟩ := rest.consistent_occupied.slot_lt_of_held holds
  have arrived := rest.consistent_occupied.arrived_of_running shown running
  have arrival : r.arrival = p.arrival :=
    congrArg (·.arrival) (o.toAtRest.toJob_occupied shown found)
  rwa [rest.now_occupied, o.now_steps, arrival] at arrived

theorem Outset.start_eq : p.start = (start.dispatchesOf n slot).head?.map (·.tick) := by
  rw [← (o.dispatched n).startOf_eq, startOf, found]
  rfl

/-- Only who has been dispatched runs or has completed. -/
theorem Outset.startsFirst : p.StartsFirst := by
  have first : ∀ q ∈ start.procs, q.StartsFirst := by
    intro q member _
    rw [o.fresh q member]
    exact .inl rfl
  exact o.toAtRest.enduring_steps ProcessRecord.enduring_startsFirst first n p
    (List.mem_of_getElem? found)

theorem Outset.response_eq : p.response = p.start.map (· - p.arrival) := by
  have responsive : ∀ q ∈ start.procs, q.Responsive := by
    intro q member
    rw [o.fresh q member]
    rfl
  exact o.toAtRest.enduring_steps ProcessRecord.enduring_responsive responsive n p
    (List.mem_of_getElem? found)

/-- A start, once written, is that of the first dispatch ever. -/
theorem Outset.start_steps (started : p.start.isSome = true) {k : Nat} {q : ProcessRecord}
    (later : (start.steps (n + k)).procs[slot]? = some q) : q.start = p.start := by
  obtain ⟨more, grown, -⟩ := o.toAtRest.grows_steps (Nat.le_add_right n k)
  have first := o.start_eq found
  rw [o.start_eq later, dispatchesOf, Trace.ofKind, grown, List.filter_append, List.filter_append,
    List.head?_append, Option.map_or]
  change Option.or ((start.dispatchesOf n slot).head?.map _) _ = _
  rw [← first]
  exact Option.or_of_isSome started

omit found in
theorem Outset.lt_of_started {t : Nat} (at_slot : (start.steps n).procs[slot]? = some p)
    (started : p.start = some t) : t < n := by
  rw [o.start_eq at_slot, Option.map_eq_some_iff] at started
  obtain ⟨d, first, rfl⟩ := started
  have recorded := (List.mem_filter.1 (List.mem_of_head? first)).1
  exact ((o.dispatched n).shown d recorded).1

/-- When the tick of its start begins, a process has not started. -/
theorem Outset.exists_unstarted {t : Nat} (started : p.start = some t) :
    ∃ r, (start.steps t).procs[slot]? = some r ∧ r.toJob = p.toJob ∧ r.start = none := by
  obtain ⟨r, at_slot, same⟩ := o.toAtRest.exists_record found t
  refine ⟨r, at_slot, same, ?_⟩
  by_contra begun
  have later : t + (n - t) = n := Nat.add_sub_cancel' (Nat.le_of_lt (o.lt_of_started found started))
  have kept := o.start_steps at_slot (Option.isSome_iff_ne_none.2 begun) (later.symm ▸ found)
  exact Nat.lt_irrefl t (o.lt_of_started at_slot (kept.symm.trans started))

end Laws

theorem Outset.lifecycle {start : Machine} (o : Outset start) {algorithm : Algorithm}
    (under : start.policy.algorithm = algorithm) {n : Nat}
    (found : (start.steps n).procs[slot]? = some p) : Lifecycle algorithm start n slot p := by
  have rest := o.toAtRest
  have balanced := o.balanced.steps rest n
  have member := List.mem_of_getElem? found
  have same_algorithm : ∀ t, (start.steps t).policy.algorithm = algorithm := fun t =>
    (rest.algorithm_steps t).trans under
  have unmarked : algorithm = .fcfs ∨ algorithm = .sjf →
      ∀ t, (start.steps t).policy.algorithm.marksReady = false := by
    intro scans t
    rw [same_algorithm t]
    rcases scans with rfl | rfl <;> rfl
  constructor
  case admitted => exact o.mem_arriving_iff found
  case marked =>
    intro marks
    refine (rest.steps p.arrival).ready_of_arriving ?_ ((o.mem_arriving_iff found _).2 rfl)
    rw [same_algorithm, marks]
  case untouched =>
    exact fun early => (rest.steps n).untouched p member ((o.now_steps n).trans_le early)
  case arrived => exact fun d => o.arrived_of_dispatchesOf found
  case completed_iff => exact balanced.completed_iff member
  case finish_iff => exact balanced.isSome_finish_iff member
  case final =>
    intro done k
    rw [steps_add]
    exact (rest.steps n).getElem?_steps_of_completed found done k
  case start_eq => exact o.start_eq found
  case response_eq => exact o.response_eq found
  case once =>
    intro started k q later
    have same := o.start_steps found started later
    have jobs : (start.steps (n + k)).jobs = (start.steps n).jobs :=
      (rest.jobs_steps _).trans (rest.jobs_steps n).symm
    have arrival : q.arrival = p.arrival :=
      congrArg (·.arrival) (toJob_eq_of_jobs_eq jobs later found)
    refine ⟨same, ?_⟩
    rw [o.response_eq later, o.response_eq found, same, arrival]
  case works =>
    intro q after
    rw [steps_succ] at after
    exact (rest.steps n).remaining_step_add balanced found after
  case unready =>
    intro scans stage
    exact (rest.steps n).unready_stage (unmarked scans n)
      (rest.unready_steps (unmarked scans 0) o.unready n) stage slot
  case stays =>
    intro scans cpu runs k stage
    exact (rest.steps _).stays_stage (unmarked scans _) (o.stays (unmarked scans 0) runs k) stage
  case queues =>
    intro turns stage admitted
    obtain ⟨quantum, queue, policy⟩ := Policy.eq_roundRobin_of_algorithm_eq (under.trans turns)
    obtain ⟨later, policy'⟩ := rest.policy_steps policy n
    refine (o.ledger.steps rest policy n).enrolled_stage (rest.steps n) policy' found ?_
    rwa [o.now_steps]
  case contends =>
    intro shortest stage q at_slot started ready
    have srtf := Policy.eq_srtf_of_algorithm_eq (under.trans shortest)
    have orderly := (o.converged.steps rest srtf n).orderly_stage (rest.steps n)
      (rest.srtf_steps srtf n) stage
    rw [(orderly q (List.mem_of_getElem? at_slot)).1 ready] at started
    cases started

theorem outset_boot (s : Scenario) (bursts : ∀ job ∈ s.jobs, 0 < job.burst) (algorithm : Algorithm)
    (quantum capacity : Nat) : Outset (boot s (.fresh algorithm quantum capacity)) where
  toAtRest := atRest_boot s algorithm quantum capacity
  zero := rfl
  blank := rfl
  fresh := fresh_boot s _
  balanced := balanced_boot s bursts _
  ledger := ledger_boot s algorithm quantum capacity
  converged := converged_boot s _

theorem outset_begun (d : Discipline) (s : Scenario) (bursts : ∀ job ∈ s.jobs, 0 < job.burst) :
    Outset (begun d s) where
  toAtRest := atRest_begun d s
  zero := rfl
  blank := rfl
  fresh := fresh_boot s d.policy
  balanced := balanced_begun d s bursts
  ledger := ledger_begun d s
  converged := (converged_boot s d.policy).say _

/-- Every process lives by these laws, after any number of ticks under any policy and in every
simulation; and every dispatch in a trace is one of the process that its row shows. -/
theorem process_lifecycle (s : Scenario) (bursts : ∀ job ∈ s.jobs, 0 < job.burst) :
    (∀ algorithm quantum capacity n, let start := boot s (.fresh algorithm quantum capacity)
      Dispatched start n ∧ ∀ slot p, (start.steps n).procs[slot]? = some p →
        Lifecycle algorithm start n slot p) ∧
    ∀ d, let start := begun d s
      let o := simulate d s
      o.machine.procs = (start.steps o.totalTicks).procs ∧
        o.machine.trace = (start.steps o.totalTicks).trace ∧
        ∀ n, Dispatched start n ∧ ∀ slot p, (start.steps n).procs[slot]? = some p →
          Lifecycle d.algorithm start n slot p := by
  constructor
  · intro algorithm quantum capacity n start
    have o : Outset start := outset_boot s bursts algorithm quantum capacity
    have under : start.policy.algorithm = algorithm := by cases algorithm <;> rfl
    exact ⟨o.dispatched n, fun slot p => o.lifecycle under⟩
  · intro d start o
    obtain ⟨k, -, outcome, -⟩ := simulate_eq d s
    have begins : Outset start := outset_begun d s bursts
    have under : start.policy.algorithm = d.algorithm := Policy.algorithm_start _ _
    have ended : o.machine = (start.steps k).conclude s.bound := congrArg (·.machine) outcome
    have ticks : o.totalTicks = k := by
      rw [Outcome.totalTicks, ended]
      exact begins.now_steps k
    rw [ticks, ended]
    exact ⟨rfl, rfl, fun n => ⟨begins.dispatched n, fun slot p => begins.lifecycle under⟩⟩

/-- A process that was evicted keeps the start of its first dispatch when it is dispatched again. -/
theorem process_lifecycle_evicted :
    let start := boot shorterArrival (.fresh .srtf 2 500)
    (∀ job ∈ shorterArrival.jobs, 0 < job.burst) ∧ (start.steps 2).status? 0 = some .waiting ∧
      ∃ p, (start.steps 3).procs[0]? = some p ∧ Lifecycle .srtf start 3 0 p ∧
        (start.dispatchesOf 3 0).map (·.tick) = [0, 2] ∧ p.start = some 0 ∧ p.remaining = 1 := by
  intro start
  have bursts : ∀ job ∈ shorterArrival.jobs, 0 < job.burst := by decide
  have evicted : (start.steps 2).status? 0 = some .waiting := by decide +kernel
  have again : (start.dispatchesOf 3 0).map (·.tick) = [0, 2] := by decide +kernel
  obtain ⟨p, found, left⟩ : ∃ p, (start.steps 3).procs[0]? = some p ∧ p.remaining = 1 := by
    decide +kernel
  have laws := ((process_lifecycle shorterArrival bursts).1 .srtf 2 500 3).2 0 p found
  have first : p.start = some 0 := by
    rw [laws.start_eq, ← List.head?_map, again]
    rfl
  exact ⟨bursts, evicted, p, found, laws, again, first, left⟩

end Machine
end CpuScheduling
