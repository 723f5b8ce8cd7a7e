import CpuScheduling.Proofs.Work
/-!
Steps and runs of any length. A step keeps a machine at rest, and after every phase of it the
machine is consistent. What every step keeps, a run keeps.
-/
namespace CpuScheduling

/-- A policy of any algorithm, quantum and queue capacity, before its first choice. -/
def Policy.fresh (algorithm : Algorithm) (quantum capacity : Nat) : Policy :=
  (Policy.start quantum algorithm).withQueueCapacity capacity

theorem Policy.fresh_default (algorithm : Algorithm) (quantum : Nat) :
    Policy.fresh algorithm quantum defaultQueueCapacity = .start quantum algorithm := by
  cases algorithm <;> rfl

/-- What the rest of a tick, after its row of the timeline, makes of a record. -/
def ProcessRecord.pass (now : Nat) (p : ProcessRecord) : ProcessRecord :=
  if p.isRunning then p.work now else p.ageWaiting now

namespace ProcessRecord
variable {p : ProcessRecord}

theorem toJob_pass (now : Nat) (p : ProcessRecord) : (p.pass now).toJob = p.toJob := by
  unfold pass
  split
  · exact p.toJob_work now
  · exact p.toJob_ageWaiting now

theorem status_pass (now : Nat) (p : ProcessRecord) {status : Status}
    (off : ∀ cpu, status ≠ .running cpu) (unfinished : status ≠ .completed) :
    (p.pass now).status = status ↔ p.status = status := by
  unfold pass
  split
  next running =>
    obtain ⟨cpu, at_cpu⟩ := isRunning_iff.1 running
    have before : p.status ≠ status := at_cpu ▸ (off cpu).symm
    rw [p.status_work]
    split
    · exact iff_of_false unfinished.symm before
    · rfl
  next => rw [p.status_ageWaiting]

theorem start_pass (p : ProcessRecord) (now : Nat) : (p.pass now).start = p.start := by
  unfold pass work ageWaiting
  dsimp only
  split <;> split <;> rfl

theorem remaining_pass_of_off (now : Nat) (off : p.isRunning = false) :
    (p.pass now).remaining = p.remaining := by
  rw [pass, off, if_neg Bool.false_ne_true, ageWaiting]
  split <;> rfl

/-- After a tick a process still runs only if more than a unit of work was left. -/
theorem status_pass_running {now cpu : Nat} :
    (p.pass now).status = .running cpu ↔ p.status = .running cpu ∧ 1 < p.remaining := by
  unfold pass
  split
  next running =>
    rw [p.status_work]
    split
    next last => exact iff_of_false nofun fun more => Nat.not_lt_of_le last more.2
    next more => exact (and_iff_left (Nat.lt_of_not_le more)).symm
  next off =>
    rw [p.status_ageWaiting]
    have idle : p.status ≠ .running cpu := fun at_cpu => off (isRunning_iff.2 ⟨cpu, at_cpu⟩)
    exact iff_of_false idle fun runs => idle runs.1

end ProcessRecord

namespace Machine
variable {m : Machine}

theorem status?_ageWaiting (m : Machine) : m.ageWaiting.status? = m.status? := by
  funext slot
  show (m.procs.map (·.ageWaiting m.now))[slot]?.map (·.status) = _
  rw [List.getElem?_map, Option.map_map, status?]
  exact congrArg (fun f => m.procs[slot]?.map f) (funext fun p => p.status_ageWaiting m.now)

theorem Consistent.ageWaiting (h : Consistent m) : Consistent m.ageWaiting := by
  constructor
  case matching =>
    rw [status?_ageWaiting]
    exact h.matching
  case completed_eq =>
    refine h.completed_eq.trans ?_
    show _ = (m.procs.map (·.ageWaiting m.now)).countP (·.isCompleted)
    rw [List.countP_map]
    refine List.countP_congr fun p _ => ?_
    simp [ProcessRecord.isCompleted, p.status_ageWaiting]
  case queued_nodup =>
    exact h.queued_nodup
  case queued_ready =>
    rw [status?_ageWaiting]
    exact h.queued_ready
  case unarrived =>
    intro q member late
    obtain ⟨p, old, rfl⟩ := List.mem_map.1 member
    rw [p.toJob_ageWaiting] at late
    have same : p.ageWaiting m.now = p := p.ageWaiting_of_later m.now late
    rw [same]
    exact h.unarrived p old late

theorem AtRest.consistent_occupied (h : AtRest m) : Consistent m.occupied :=
  h.enrolled.moves h.moves_occupied

theorem AtRest.consistent_aged (h : AtRest m) : Consistent m.aged := by
  have shown : Consistent m.shown := h.consistent_occupied.congr rfl rfl rfl rfl rfl
  exact shown.ageWaiting

/-- A machine at rest is consistent at every stage of its next step. -/
theorem AtRest.consistent_stage (h : AtRest m) (stage : Stage) : Consistent (m.stage stage) := by
  cases stage with
  | rest => exact h.toConsistent
  | stamped => exact h.congr rfl rfl rfl rfl rfl
  | enrolled => exact h.enrolled
  | enqueued => exact h.consistent_enqueued
  | rescheduled => exact h.consistent_rescheduled
  | occupied => exact h.consistent_occupied
  | shown => exact h.consistent_occupied.congr rfl rfl rfl rfl rfl
  | aged => exact h.consistent_aged
  | worked => exact h.consistent_aged.work

theorem AtRest.now_occupied (h : AtRest m) : m.occupied.now = m.now := h.moves_occupied.now_eq

theorem AtRest.now_step (h : AtRest m) : m.step.now = m.now + 1 := by
  rw [step_eq, advance, worked, now_work h.consistent_aged]
  exact congrArg (· + 1) h.now_occupied

theorem AtRest.step (h : AtRest m) : AtRest m.step := by
  have worked : Consistent m.worked := h.consistent_aged.work
  constructor
  · refine ⟨worked.matching, worked.completed_eq, worked.queued_nodup, worked.queued_ready, ?_⟩
    intro p member late
    exact worked.unarrived p member (Nat.lt_of_succ_lt late)
  · intro p member late
    exact worked.unarrived p member late

/-- A step gives a unit of work or a tick of waiting to the records of the tick's occupancy. -/
theorem AtRest.procs_step (h : AtRest m) :
    m.step.procs = m.occupied.procs.map (·.pass m.now) := by
  have aged_procs : m.aged.procs = m.occupied.procs.map (·.ageWaiting m.occupied.now) := rfl
  have aged_now : m.aged.now = m.occupied.now := rfl
  show m.aged.work.procs = _
  rw [procs_work h.consistent_aged, aged_procs, aged_now, h.now_occupied, List.map_map]
  refine List.map_congr_left fun p _ => ?_
  rw [Function.comp_apply, ProcessRecord.pass]
  have same : (p.ageWaiting m.now).isRunning = p.isRunning := by
    unfold ProcessRecord.isRunning
    rw [p.status_ageWaiting]
  rw [same]
  split
  next running => simp [ProcessRecord.ageWaiting, running]
  next => rfl

theorem AtRest.accounts_occupied (h : AtRest m) : m.occupied.accounts = m.accounts :=
  h.moves_occupied.accounts_eq.trans m.accounts_enrolled

theorem AtRest.account_mem (h : AtRest m) {p : ProcessRecord} (member : p ∈ m.occupied.procs) :
    p.account ∈ m.accounts := by
  rw [← h.accounts_occupied]
  exact List.mem_map_of_mem member

/-- Whoever runs at the row of a tick has arrived. -/
theorem AtRest.arrived_of_running (h : AtRest m) {p : ProcessRecord}
    (member : p ∈ m.occupied.procs) (running : p.isRunning = true) : p.arrival ≤ m.now := by
  obtain ⟨slot, found⟩ := List.mem_iff_getElem?.1 member
  obtain ⟨cpu, at_cpu⟩ := ProcessRecord.isRunning_iff.1 running
  rw [← h.now_occupied]
  exact h.consistent_occupied.arrived_of_running found at_cpu

/-- The jobs of a machine, in the order of its table. -/
def jobs (m : Machine) : List Job := m.procs.map (·.toJob)

theorem job_of_getElem? {slot : Nat} {p : ProcessRecord} (found : m.procs[slot]? = some p) :
    m.jobs[slot]? = some p.toJob := by
  rw [jobs, List.getElem?_map, found, Option.map_some]

theorem pid_of_getElem? {slot : Nat} {p : ProcessRecord} (found : m.procs[slot]? = some p) :
    m.jobs[slot]?.map (·.pid) = some p.pid := by
  rw [job_of_getElem? found]
  rfl

theorem jobs_eq_of_accounts_eq {x y : Machine} (same : x.accounts = y.accounts) :
    x.jobs = y.jobs := by
  have jobs_eq : ∀ z : Machine, z.jobs = z.accounts.map (·.job) := fun z => by
    rw [accounts, List.map_map]
    rfl
  rw [jobs_eq, jobs_eq, same]

theorem exists_account_eq {x y : Machine} (same : x.accounts = y.accounts) {slot : Nat}
    {p : ProcessRecord} (found : x.procs[slot]? = some p) :
    ∃ q, y.procs[slot]? = some q ∧ q.account = p.account := by
  have here := congrArg (·[slot]?) same
  simp only [accounts, List.getElem?_map, found, Option.map_some] at here
  exact Option.map_eq_some_iff.1 here.symm

theorem toJob_eq_of_jobs_eq {x y : Machine} (same : x.jobs = y.jobs) {slot : Nat}
    {p q : ProcessRecord} (found : x.procs[slot]? = some p) (found' : y.procs[slot]? = some q) :
    p.toJob = q.toJob := by
  have here := congrArg (·[slot]?) same
  simp only [jobs, List.getElem?_map, found, found', Option.map_some] at here
  exact Option.some.inj here

theorem length_eq_of_jobs_eq {x y : Machine} (same : x.jobs = y.jobs) :
    x.procs.length = y.procs.length := by
  simpa only [jobs, List.length_map] using congrArg List.length same

theorem AtRest.jobs_occupied (h : AtRest m) : m.occupied.jobs = m.jobs :=
  jobs_eq_of_accounts_eq h.accounts_occupied

theorem AtRest.jobs_step (h : AtRest m) : m.step.jobs = m.jobs := by
  rw [jobs, h.procs_step, List.map_map, ← h.jobs_occupied, jobs]
  exact List.map_congr_left fun p _ => p.toJob_pass m.now

theorem policy_step (m : Machine) : m.step.policy = m.occupied.policy :=
  atEachCpu_keeps fun cpu x => policy_workAt x cpu

theorem AtRest.rule_step (h : AtRest m) : m.step.policy.rule = m.policy.rule := by
  rw [policy_step, h.moves_occupied.rule_eq]
  rfl

theorem AtRest.algorithm_occupied (h : AtRest m) :
    m.occupied.policy.algorithm = m.policy.algorithm := by
  rw [← Policy.algorithm_rule, h.moves_occupied.rule_eq, Policy.algorithm_rule]
  rfl

theorem dropped_step (m : Machine) : m.step.dropped = m.occupied.dropped :=
  atEachCpu_keeps fun cpu x => dropped_workAt x cpu

theorem queued_step (m : Machine) : m.step.queued = m.occupied.queued := by
  rw [queued, policy_step, queued]

theorem AtRest.size_cpus_step (h : AtRest m) : m.step.cpus.size = m.cpus.size := by
  have worked : m.step.cpus.size = m.occupied.cpus.size := size_cpus_work m.aged
  exact worked.trans h.moves_occupied.size_cpus_eq

/-- Who is off every processor at the row of a tick and unfinished stands so after the tick. -/
theorem AtRest.status?_step (h : AtRest m) (slot : Nat) {status : Status}
    (off : ∀ cpu, status ≠ .running cpu) (unfinished : status ≠ .completed) :
    m.step.status? slot = some status ↔ m.occupied.status? slot = some status := by
  rw [status?, h.procs_step, List.getElem?_map, Option.map_map, Option.map_eq_some_iff,
    status?_eq_some]
  exact exists_congr fun p => and_congr_right fun _ => p.status_pass m.now off unfinished

/-! Completion is final. -/

theorem Move.getElem?_of_completed {m' : Machine} (move : Move m m') {slot : Nat}
    {p : ProcessRecord} (found : m.procs[slot]? = some p) (done : p.status = .completed) :
    m'.procs[slot]? = some p := by
  cases move with
  | @place cpu s q idle found' pending arrived unqueued =>
    have other : slot ≠ s := by
      rintro rfl
      cases found.symm.trans found'
      rw [done] at pending
      rcases pending with stands | stands <;> cases stands
    rw [getElem?_procs_dispatch_of_ne m cpu s other, found]
  | @displace cpu s q holds found' running status kind cause notice =>
    have other : s ≠ slot := by
      rintro rfl
      cases found.symm.trans found'
      cases done.symm.trans running
    exact (List.getElem?_set_ne other).trans found
  | enqueue ready unqueued => rw [procs_sendToQueue, found]
  | dequeue policy => exact found

theorem Moves.getElem?_of_completed {m' : Machine} (moves : Moves m m') {slot : Nat}
    {p : ProcessRecord} (found : m.procs[slot]? = some p) (done : p.status = .completed) :
    m'.procs[slot]? = some p := by
  induction moves with
  | refl => exact found
  | tail _ last ih => exact last.getElem?_of_completed ih done

section Completed
variable (h : AtRest m) {slot : Nat} {p : ProcessRecord} (found : m.procs[slot]? = some p)
  (done : p.status = .completed)
include h found done

theorem AtRest.getElem?_occupied_of_completed : m.occupied.procs[slot]? = some p := by
  have enrolled : m.enrolled.procs[slot]? = some p := by
    rw [procs_enrolled, List.getElem?_map, found, Option.map_some]
    rcases p.enroll_cases m.policy.algorithm m.now with same | ⟨waiting, -⟩
    · rw [same]
    · cases done.symm.trans waiting
  exact h.moves_occupied.getElem?_of_completed enrolled done

/-- A tick leaves every field of a completed process as it is. -/
theorem AtRest.getElem?_step_of_completed : m.step.procs[slot]? = some p := by
  have idle : p.pass m.now = p := by
    simp [ProcessRecord.pass, ProcessRecord.isRunning, ProcessRecord.ageWaiting,
      ProcessRecord.isCompleted, done]
  rw [h.procs_step, List.getElem?_map, h.getElem?_occupied_of_completed found done,
    Option.map_some, idle]

end Completed

/-! Runs. -/

theorem steps_add (a b : Nat) (m : Machine) : m.steps (a + b) = (m.steps a).steps b := by
  induction a generalizing m with
  | zero => rw [Nat.zero_add, steps]
  | succ a ih => rw [Nat.succ_add, steps, steps, ih]

theorem steps_succ (n : Nat) (m : Machine) : m.steps (n + 1) = (m.steps n).step := steps_add n 1 m

theorem AtRest.steps (h : AtRest m) (n : Nat) : AtRest (m.steps n) := by
  induction n with
  | zero => exact h
  | succ n ih => rw [steps_succ]; exact ih.step

theorem AtRest.now_steps (h : AtRest m) (n : Nat) : (m.steps n).now = m.now + n := by
  induction n with
  | zero => rfl
  | succ n ih => rw [steps_succ, (h.steps n).now_step, ih, Nat.add_assoc]

theorem AtRest.jobs_steps (h : AtRest m) (n : Nat) : (m.steps n).jobs = m.jobs := by
  induction n with
  | zero => rfl
  | succ n ih => rw [steps_succ, (h.steps n).jobs_step, ih]

theorem AtRest.toJob_mem_jobs (h : AtRest m) {n : Nat} {p : ProcessRecord}
    (member : p ∈ (m.steps n).procs) : p.toJob ∈ m.jobs := by
  rw [← h.jobs_steps n]
  exact List.mem_map_of_mem member

theorem AtRest.length_procs_steps (h : AtRest m) (n : Nat) :
    (m.steps n).procs.length = m.procs.length := length_eq_of_jobs_eq (h.jobs_steps n)

/-- A slot has a record throughout a run, of one and the same job. -/
theorem AtRest.exists_record (h : AtRest m) {n slot : Nat} {p : ProcessRecord}
    (found : (m.steps n).procs[slot]? = some p) (t : Nat) :
    ∃ q, (m.steps t).procs[slot]? = some q ∧ q.toJob = p.toJob := by
  have inside : slot < (m.steps t).procs.length := by
    rw [h.length_procs_steps, ← h.length_procs_steps n]
    exact (List.getElem?_eq_some_iff.1 found).1
  have found' := List.getElem?_eq_getElem inside
  exact ⟨_, found', toJob_eq_of_jobs_eq ((h.jobs_steps t).trans (h.jobs_steps n).symm) found' found⟩

theorem AtRest.toJob_occupied (h : AtRest m) {t n slot : Nat} {r p : ProcessRecord}
    (shown : (m.steps t).occupied.procs[slot]? = some r)
    (found : (m.steps n).procs[slot]? = some p) : r.toJob = p.toJob :=
  toJob_eq_of_jobs_eq
    ((h.steps t).jobs_occupied.trans ((h.jobs_steps t).trans (h.jobs_steps n).symm)) shown found

theorem AtRest.size_cpus_steps (h : AtRest m) (n : Nat) :
    (m.steps n).cpus.size = m.cpus.size := by
  induction n with
  | zero => rfl
  | succ n ih => rw [steps_succ, (h.steps n).size_cpus_step, ih]

theorem AtRest.rule_steps (h : AtRest m) (n : Nat) :
    (m.steps n).policy.rule = m.policy.rule := by
  induction n with
  | zero => rfl
  | succ n ih => rw [steps_succ, (h.steps n).rule_step, ih]

theorem AtRest.getElem?_steps_of_completed (h : AtRest m) {slot : Nat} {p : ProcessRecord}
    (found : m.procs[slot]? = some p) (done : p.status = .completed) (n : Nat) :
    (m.steps n).procs[slot]? = some p := by
  induction n with
  | zero => exact found
  | succ n ih =>
    rw [steps_succ]
    exact (h.steps n).getElem?_step_of_completed ih done

/-- Only a queue changes in a policy. -/
theorem AtRest.policy_steps_eq (h : AtRest m) (no_queue : m.policy.queue? = none) (n : Nat) :
    (m.steps n).policy = m.policy := Policy.eq_of_rule_eq no_queue (h.rule_steps n)

theorem AtRest.algorithm_steps (h : AtRest m) (n : Nat) :
    (m.steps n).policy.algorithm = m.policy.algorithm := by
  rw [← Policy.algorithm_rule, h.rule_steps n, Policy.algorithm_rule]

theorem jobs_boot (s : Scenario) (policy : Policy) : (boot s policy).jobs = s.jobs := by
  show (s.jobs.map Job.toRecord).map (·.toJob) = s.jobs
  rw [List.map_map]
  exact List.map_id _

theorem queued_fresh (s : Scenario) (algorithm : Algorithm) (quantum capacity : Nat) :
    (boot s (.fresh algorithm quantum capacity)).queued = [] := by
  cases algorithm <;> rfl

theorem unready_boot (s : Scenario) (policy : Policy) (slot : Nat) :
    (boot s policy).status? slot ≠ some .ready := by
  intro ready
  obtain ⟨p, found, ready⟩ := status?_eq_some.1 ready
  obtain ⟨job, -, rfl⟩ := List.mem_map.1 (List.mem_of_getElem? found)
  cases ready

theorem held_boot (s : Scenario) (policy : Policy) (cpu : Nat) :
    (boot s policy).held cpu = none := by
  rw [held, boot, Array.getElem?_replicate]
  split <;> rfl

theorem fresh_boot (s : Scenario) (policy : Policy) :
    ∀ p ∈ (boot s policy).procs, p = p.toJob.toRecord := by
  intro p member
  obtain ⟨job, -, rfl⟩ := List.mem_map.1 member
  rfl

theorem atRest_boot (s : Scenario) (algorithm : Algorithm) (quantum capacity : Nat) :
    AtRest (boot s (.fresh algorithm quantum capacity)) := by
  have records := fresh_boot s (.fresh algorithm quantum capacity)
  have queued := queued_fresh s algorithm quantum capacity
  refine ⟨⟨?_, ?_, ?_, ?_, fun p member _ => records p member⟩, fun p member _ => records p member⟩
  · intro cpu slot
    have unheld : (boot s (.fresh algorithm quantum capacity)).held cpu ≠ some slot := by
      rw [held_boot]
      exact nofun
    have off : (boot s (.fresh algorithm quantum capacity)).status? slot ≠
        some (.running cpu) := by
      intro runs
      obtain ⟨p, found, running⟩ := status?_eq_some.1 runs
      rw [records p (List.mem_of_getElem? found)] at running
      cases running
    exact iff_of_false unheld off
  · symm
    refine List.countP_eq_zero.2 fun p member => ?_
    rw [records p member]
    exact nofun
  · rw [queued]
    exact List.nodup_nil
  · rw [queued]
    exact fun slot member => absurd member List.not_mem_nil

/-- One processor and two jobs; the second is shorter and arrives while the first runs. -/
def shorterArrival : Scenario :=
  { cpus := 1, cpus_pos := Nat.one_pos, jobs := [⟨1, 0, 3, 0⟩, ⟨2, 1, 1, 0⟩] }

end Machine
end CpuScheduling
