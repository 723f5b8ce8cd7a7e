import CpuScheduling.Proofs.Pace
import CpuScheduling.Proofs.Simultaneous
/-!
Shortest first among processes that arrive together. At any moment some burst divides those who were
dispatched, which are no longer, from those who wait, which are no shorter. On one processor all
policies do the same work in the same ticks, so no policy has completed more processes with it at
any moment, and under none have they waited less in all.
-/
namespace CpuScheduling

/-- A measure of the processes added up, if all of them have it. -/
def Outcome.total? (measure : ProcessRecord → Option Nat) (o : Outcome) : Option Nat :=
  (o.machine.procs.mapM measure).map List.sum

namespace ProcessRecord

/-- The time since the arrival, up to the finish: a process waits or works. -/
def elapsed (p : ProcessRecord) : Nat := p.waited + p.workDone

/-- What a process has left; one that has completed is counted as having a given burst left. -/
def debt (burst : Nat) (p : ProcessRecord) : Nat :=
  p.remaining + if p.isCompleted then burst else 0

theorem debt_of_completed {p : ProcessRecord} (done : p.isCompleted = true) (burst : Nat) :
    p.debt burst = p.remaining + burst := by rw [debt, if_pos done]

theorem remaining_le_debt (p : ProcessRecord) (burst : Nat) : p.remaining ≤ p.debt burst :=
  Nat.le_add_right _ _

theorem elapsed_pass {p : ProcessRecord} (now : Nat)
    (arrived : p.isRunning = true → p.arrival ≤ now)
    (work_left : p.isRunning = true → 0 < p.remaining) (within : p.remaining ≤ p.burst) :
    p.elapsed + (if p.arrivedBy now && !p.isCompleted then 1 else 0) = (p.pass now).elapsed := by
  have burst : (p.pass now).burst = p.burst := congrArg (·.burst) (p.toJob_pass now)
  have remaining := remaining_pass_add now work_left
  cases running : p.isRunning with
  | true =>
    obtain ⟨cpu, at_cpu⟩ := isRunning_iff.1 running
    have waited : (p.pass now).waited = p.waited := by
      rw [pass, if_pos running, work]
      dsimp only
      split <;> rfl
    have counts : (p.arrivedBy now && !p.isCompleted) = true := by
      simp [arrivedBy, isCompleted, at_cpu, arrived running]
    rw [if_pos running] at remaining
    rw [if_pos counts, elapsed, elapsed, workDone, workDone, waited, burst]
    omega
  | false =>
    have waited : (p.pass now).waited =
        p.waited + if p.arrivedBy now && !p.isCompleted then 1 else 0 := by
      rw [pass, running, if_neg Bool.false_ne_true, ageWaiting, running, Bool.not_false,
        Bool.and_true]
      split <;> rfl
    rw [elapsed, elapsed, workDone, workDone, burst, waited, remaining_pass_of_off now running]
    exact Nat.add_right_comm _ _ _

end ProcessRecord

namespace Machine
variable {m x y : Machine} {arrival cpu slot : Nat}

/-! Who was dispatched and who waits. -/

/-- Shortest job first amid processes that arrive together, with a burst that divides those who were
dispatched from those who wait. -/
structure Divided (arrival : Nat) (m : Machine) : Prop where
  sjf : m.policy = .sjf
  together : ∀ p ∈ m.procs, p.arrival = arrival
  level : ∃ burst > 0, ∀ p ∈ m.procs,
    (p.status = .waiting → burst ≤ p.burst) ∧ (p.status ≠ .waiting → p.burst ≤ burst)

/-- The burst of who is dispatched divides the processes from then on. -/
theorem Divided.dispatch (divided : m.Divided arrival) (chosen : m.choose.1 = some slot)
    (cpu : Nat) : (m.dispatch cpu slot).Divided arrival := by
  obtain ⟨sjf, together, burst, positive, sides⟩ := divided
  have scan : Selection.bestWaiting? (·.burst) m.procs m.now = some slot := by
    rw [← chosen, choose, sjf]
    rfl
  obtain ⟨r, first⟩ := (Selection.strictWeak_precedes (·.burst)).isFirstLeast scan
  have fits := first.fits
  simp only [ProcessRecord.arrivedBy, Bool.and_eq_true, decide_eq_true_eq] at fits
  have member := List.mem_of_getElem? first.found
  have above : burst ≤ r.burst := (sides r member).1 fits.1
  have procs : ∀ q ∈ (m.dispatch cpu slot).procs, q ∈ m.procs ∨ q = r.dispatch cpu m.now := by
    rw [dispatch_eq m cpu slot first.found]
    exact fun q => List.mem_or_eq_of_mem_set
  refine ⟨(policy_dispatch ..).trans sjf, fun q inside => ?_, r.burst,
    Nat.lt_of_lt_of_le positive above, fun q inside => ?_⟩
  · rcases procs q inside with old | rfl
    · exact together q old
    · exact together r member
  · rcases procs q inside with old | rfl
    · refine ⟨fun waiting => ?_, fun started => Nat.le_trans ((sides q old).2 started) above⟩
      obtain ⟨j, at_j⟩ := List.mem_iff_getElem?.1 old
      have least := first.least j q at_j (by
        simp [waiting, ProcessRecord.arrivedBy, together q old, ← together r member, fits.2])
      simp only [Selection.precedes, Bool.or_eq_false_iff, decide_eq_false_iff_not] at least
      exact Nat.le_of_not_lt least.1
    · exact ⟨fun waiting => absurd waiting (by simp [ProcessRecord.dispatch]),
        fun _ => Nat.le_refl _⟩

theorem Divided.occupyThese (divided : m.Divided arrival) (cpus : List Nat) :
    (m.occupyThese cpus).Divided arrival := by
  have unchosen : ∀ {z : Machine}, z.Divided arrival → z.choose.2 = z := fun d =>
    choose_of_queue?_eq_none (by rw [d.sjf]; rfl)
  refine occupyThese_induction (P := fun _ x y => x.Divided arrival → y.Divided arrival)
    (fun _ => id) (fun _ _ _ _ => id) ?_ ?_ cpus m divided
  · intro _ _ z _ _ divided
    rwa [unchosen divided]
  · intro cpu _ z slot _ chosen ih divided
    rw [unchosen divided] at ih ⊢
    exact ih (divided.dispatch chosen cpu)

theorem AtRest.divided_step (rest : AtRest m) (divided : m.Divided arrival) :
    m.step.Divided arrival := by
  have unmarked : m.policy.algorithm.marksReady = false := by rw [divided.sjf]; rfl
  have procs := procs_rescheduled_of_unmarked unmarked
  have rescheduled : m.rescheduled.Divided arrival := by
    rw [rescheduled_of_unmarked unmarked] at procs ⊢
    exact ⟨divided.sjf, procs ▸ divided.together, procs ▸ divided.level⟩
  obtain ⟨sjf, together, burst, positive, sides⟩ : m.occupied.Divided arrival :=
    rescheduled.occupyThese _
  have job : ∀ p : ProcessRecord, (p.pass m.now).toJob = p.toJob := fun p => p.toJob_pass m.now
  have waits : ∀ p : ProcessRecord, (p.pass m.now).status = .waiting ↔ p.status = .waiting :=
    fun p => p.status_pass m.now (by simp) (by simp)
  refine ⟨(policy_step m).trans sjf, ?_, burst, positive, ?_⟩
  · simpa only [rest.procs_step, List.forall_mem_map, job] using together
  · simpa only [rest.procs_step, List.forall_mem_map, job, ne_eq, waits] using sides

theorem AtRest.divided_steps (rest : AtRest m) (divided : m.Divided arrival) (n : Nat) :
    (m.steps n).Divided arrival := by
  induction n with
  | zero => exact divided
  | succ n ih =>
    rw [steps_succ]
    exact (rest.steps n).divided_step ih

/-! Who has completed. -/

theorem sum_map_add_ite {α : Type} (f : α → Nat) (fits : α → Bool) (weight : Nat) (l : List α) :
    (l.map fun a => f a + if fits a then weight else 0).sum =
      (l.map f).sum + weight * l.countP fits := by
  induction l with
  | nil => rfl
  | cons a l ih =>
    simp only [List.map_cons, List.sum_cons, List.countP_cons, ih, Nat.mul_add]
    split <;> simp <;> omega

theorem sum_debt (burst : Nat) (m : Machine) : (m.procs.map (·.debt burst)).sum =
    m.workLeft + burst * ProcessTable.countCompleted m.procs :=
  sum_map_add_ite (·.remaining) (·.isCompleted) burst m.procs

/-- With a burst that divides its run, no process owes more in another run, but for what is done of
it if it runs. -/
theorem debt_le {now now' burst : Nat} {p q : ProcessRecord} (account : p.account.Balanced now)
    (account' : q.account.Balanced now') (same : q.burst = p.burst) (unready : p.status ≠ .ready)
    (whole : p.status = .waiting → p.remaining = p.burst)
    (sides : (p.status = .waiting → burst ≤ p.burst) ∧ (p.status ≠ .waiting → p.burst ≤ burst)) :
    q.debt burst ≤ p.debt burst + if p.isRunning then burst - 1 else 0 := by
  have owed : q.debt burst ≤ max burst p.burst := by
    have within : q.remaining ≤ q.burst := account'.remaining_le
    cases done : q.isCompleted with
    | true =>
      have none_left : q.remaining = 0 := (account'.finished done).1
      rw [q.debt_of_completed done, none_left]
      omega
    | false =>
      rw [ProcessRecord.debt, done, if_neg Bool.false_ne_true]
      omega
  have owes := p.remaining_le_debt burst
  cases status : p.status with
  | waiting =>
    have longer := sides.1 status
    have left := whole status
    omega
  | ready => exact absurd status unready
  | running cpu =>
    have shorter := sides.2 (by simp [status])
    have going : p.isCompleted = false := by simp [ProcessRecord.isCompleted, status]
    have work_left : 0 < p.remaining := (account.unfinished going).1
    rw [if_pos (ProcessRecord.isRunning_iff.2 ⟨cpu, status⟩)]
    omega
  | completed =>
    have shorter := sides.2 (by simp [status])
    rw [p.debt_of_completed (decide_eq_true status)]
    omega

/-- One processor that goes by the shortest burst has completed as many processes as any machine
with the same jobs and as much work left. -/
theorem AtRest.countCompleted_le (rest : AtRest x) (divided : x.Divided arrival)
    (single : x.cpus.size = 1) (unready : ∀ slot, x.status? slot ≠ some .ready)
    (unbroken : x.Unbroken) (balanced : x.Balanced) (balanced' : y.Balanced)
    (jobs : y.jobs = x.jobs) (work : y.workLeft = x.workLeft) :
    ProcessTable.countCompleted y.procs ≤ ProcessTable.countCompleted x.procs := by
  obtain ⟨-, -, burst, positive, sides⟩ := divided
  have aligned : List.Forall₂ (· ≤ ·) (y.procs.map (·.debt burst))
      (x.procs.map fun p => p.debt burst + if p.isRunning then burst - 1 else 0) := by
    rw [List.forall₂_map_left_iff, List.forall₂_map_right_iff, List.forall₂_iff_get]
    refine ⟨length_eq_of_jobs_eq jobs, fun slot inside' inside => ?_⟩
    have found := List.getElem?_eq_getElem inside
    have job := toJob_eq_of_jobs_eq jobs (List.getElem?_eq_getElem inside') found
    have member := List.getElem_mem inside
    exact debt_le (balanced _ (List.mem_map_of_mem member))
      (balanced' _ (List.mem_map_of_mem (List.getElem_mem inside'))) (congrArg (·.burst) job)
      (fun ready => unready slot (status?_eq_some.2 ⟨_, found, ready⟩)) (unbroken slot _ found)
      (sides _ member)
  have total := aligned.sum_le_sum
  rw [sum_map_add_ite, sum_debt, sum_debt, work] at total
  have one : x.procs.countP ProcessRecord.isRunning ≤ 1 := by
    refine rest.length_heldSlots_eq.symm.trans_le ?_
    exact single ▸ length_heldSlots_le x
  -- what is done of the process that runs is less than the burst that divides
  by_contra fewer
  have more := Nat.mul_le_mul_left burst (Nat.succ_le_of_lt (Nat.lt_of_not_le fewer))
  have running := Nat.mul_le_mul_left (burst - 1) one
  rw [Nat.mul_succ] at more
  omega

/-! How long they have waited. -/

/-- The waiting of all processes, as counted tick by tick. -/
def totalWaited (m : Machine) : Nat := (m.procs.map (·.waited)).sum

def totalElapsed (m : Machine) : Nat := (m.procs.map (·.elapsed)).sum

theorem AtRest.totalElapsed_step (rest : AtRest m) (balanced : m.Balanced) :
    m.totalElapsed + m.procs.countP (fun p => p.arrivedBy m.now && !p.isCompleted) =
      m.step.totalElapsed := by
  have elapsed : ∀ z : Machine, z.totalElapsed =
      (z.accounts.map fun a => a.waited + (a.job.burst - a.remaining)).sum := fun z => by
    rw [accounts, List.map_map]
    rfl
  have unfinished : ∀ z : Machine,
      z.procs.countP (fun p => p.arrivedBy m.now && !p.isCompleted) =
        z.accounts.countP fun a => decide (a.job.arrival ≤ m.now) && !a.completed := fun z => by
    rw [accounts, List.countP_map]
    rfl
  rw [elapsed, unfinished, ← rest.accounts_occupied, ← elapsed, ← unfinished, totalElapsed,
    totalElapsed, rest.procs_step, List.map_map]
  exact sum_map_add_countP fun p member => ProcessRecord.elapsed_pass m.now
    (rest.arrived_of_running member) (rest.work_left_of_running balanced member)
    (balanced _ (rest.account_mem member)).remaining_le

theorem countP_unfinished (together : ∀ p ∈ m.procs, p.arrival = arrival) :
    m.procs.countP (fun p => p.arrivedBy m.now && !p.isCompleted) =
      if arrival ≤ m.now then m.procs.length - ProcessTable.countCompleted m.procs else 0 := by
  split
  next arrived =>
    have unfinished : m.procs.countP (fun p => p.arrivedBy m.now && !p.isCompleted) =
        m.procs.countP fun p => !p.isCompleted :=
      List.countP_congr fun p member => by
        simp [ProcessRecord.arrivedBy, together p member, arrived]
    have split := List.length_eq_countP_add_countP (·.isCompleted) (l := m.procs)
    simp only [Bool.not_eq_true, Bool.decide_eq_false] at split
    rw [unfinished, ProcessTable.countCompleted]
    omega
  next early =>
    refine List.countP_eq_zero.2 fun p member => ?_
    simp [ProcessRecord.arrivedBy, together p member, early]

/-- Processes that complete sooner have been around for less time in all. -/
theorem AtRest.totalElapsed_le (rest : AtRest x) (rest' : AtRest y) (balanced : x.Balanced)
    (balanced' : y.Balanced) (now : y.now = x.now) (jobs : y.jobs = x.jobs)
    (together : ∀ job ∈ x.jobs, job.arrival = arrival)
    (ahead : ∀ n, ProcessTable.countCompleted (y.steps n).procs ≤
      ProcessTable.countCompleted (x.steps n).procs)
    (start : x.totalElapsed ≤ y.totalElapsed) (n : Nat) :
    (x.steps n).totalElapsed ≤ (y.steps n).totalElapsed := by
  induction n with
  | zero => exact start
  | succ n ih =>
    have arrivals : ∀ p ∈ (x.steps n).procs, p.arrival = arrival := fun p member =>
      together _ (rest.toJob_mem_jobs member)
    have arrivals' : ∀ p ∈ (y.steps n).procs, p.arrival = arrival := fun p member =>
      together _ (jobs ▸ rest'.toJob_mem_jobs member)
    have length : (y.steps n).procs.length = (x.steps n).procs.length := by
      rw [rest'.length_procs_steps, rest.length_procs_steps, length_eq_of_jobs_eq jobs]
    have clock : (y.steps n).now = (x.steps n).now := by
      rw [rest'.now_steps, rest.now_steps, now]
    rw [steps_succ, steps_succ, ← (rest.steps n).totalElapsed_step (balanced.steps rest n),
      ← (rest'.steps n).totalElapsed_step (balanced'.steps rest' n), countP_unfinished arrivals,
      countP_unfinished arrivals', clock, length]
    have fewer := ahead n
    split <;> omega

/-- What the processes have done together is what has been taken from their work. -/
theorem Balanced.totalElapsed_eq (balanced : m.Balanced) :
    m.totalElapsed + m.workLeft = m.totalWaited + Scenario.work m.jobs := by
  have done := balanced.sum_workDone_add fun p (member : p ∈ m.procs) => member
  rw [totalElapsed, totalWaited, jobs, ← done, workLeft, ← Nat.add_assoc]
  exact congrArg (· + _) List.sum_map_add

/-! Runs. -/

theorem divided_begun {s : Scenario} (bursts : ∀ job ∈ s.jobs, 0 < job.burst)
    (together : ∀ job ∈ s.jobs, job.arrival = arrival) (quantum : Nat) :
    (begun ⟨.sjf, quantum⟩ s).Divided arrival := by
  have records : ∀ p ∈ (begun ⟨.sjf, quantum⟩ s).procs, ∃ job ∈ s.jobs, job.toRecord = p :=
    fun p => List.mem_map.1
  refine ⟨rfl, fun p member => ?_, 1, Nat.one_pos, fun p member => ?_⟩
  · obtain ⟨job, inside, rfl⟩ := records p member
    exact together job inside
  · obtain ⟨job, inside, rfl⟩ := records p member
    exact ⟨fun _ => bursts job inside, fun moved => absurd rfl moved⟩

section Single
variable {s : Scenario} (single : s.cpus = 1) (bursts : ∀ job ∈ s.jobs, 0 < job.burst)
  (room : s.jobs.length ≤ defaultQueueCapacity) (together : ∀ job ∈ s.jobs, job.arrival = arrival)
  (quantum : Nat) (d : Discipline) (n : Nat)
include single bursts room together

theorem countCompleted_begun_le :
    ProcessTable.countCompleted ((begun d s).steps n).procs ≤
      ProcessTable.countCompleted ((begun ⟨.sjf, quantum⟩ s).steps n).procs := by
  have rest := atRest_begun ⟨.sjf, quantum⟩ s
  have rest' := atRest_begun d s
  refine (rest.steps n).countCompleted_le
    (rest.divided_steps (divided_begun bursts together quantum) n) ?_
    (rest.unready_steps rfl (unready_boot s .sjf) n)
    (rest.unbroken_steps rfl (unbroken_begun _ s) n)
    ((balanced_begun _ s bursts).steps rest n) ((balanced_begun d s bursts).steps rest' n) ?_ ?_
  · rw [rest.size_cpus_steps, size_cpus_begun, single]
  · rw [rest.jobs_steps, rest'.jobs_steps, jobs_begun, jobs_begun]
  · rw [workLeft_begun_eq single bursts room, workLeft_begun_eq single bursts room]

theorem totalWaited_begun_le :
    ((begun ⟨.sjf, quantum⟩ s).steps n).totalWaited ≤ ((begun d s).steps n).totalWaited := by
  have rest := atRest_begun ⟨.sjf, quantum⟩ s
  have rest' := atRest_begun d s
  have balanced := balanced_begun ⟨.sjf, quantum⟩ s bursts
  have balanced' := balanced_begun d s bursts
  have less := rest.totalElapsed_le rest' balanced balanced' rfl
    ((jobs_begun d s).trans (jobs_begun _ s).symm) (by rwa [jobs_begun])
    (countCompleted_begun_le single bursts room together quantum d) (Nat.le_refl _) n
  have whole := (balanced.steps rest n).totalElapsed_eq
  have whole' := (balanced'.steps rest' n).totalElapsed_eq
  rw [rest.jobs_steps, jobs_begun, workLeft_begun_eq single bursts room] at whole
  rw [rest'.jobs_steps, jobs_begun, workLeft_begun_eq single bursts room] at whole'
  omega

end Single

/-- When all have completed, the turnarounds add up to all work and all waiting. -/
theorem Balanced.total?_eq (balanced : m.Balanced) (all : ∀ p ∈ m.procs, p.status = .completed) :
    (m.procs.mapM ProcessRecord.turnaround).map List.sum =
        some (Scenario.work m.jobs + m.totalWaited) ∧
      (m.procs.mapM ProcessRecord.netWaiting).map List.sum = some m.totalWaited := by
  have turnaround : ∀ p ∈ m.procs, p.turnaround = pure (p.burst + p.waited) := by
    intro p member
    have done := all p member
    obtain ⟨e, finish⟩ := Option.isSome_iff_exists.1
      ((balanced.isSome_finish_iff member).2 ((balanced.completed_iff member).1 done))
    obtain ⟨rfl, -⟩ := balanced.finish_eq member finish
    rw [ProcessRecord.turnaround, finish, Option.map_some, Nat.add_assoc, Nat.add_sub_cancel_left]
    rfl
  have waiting : ∀ p ∈ m.procs, p.netWaiting = pure p.waited := by
    intro p member
    rw [ProcessRecord.netWaiting, turnaround p member]
    exact congrArg some (Nat.add_sub_cancel_left _ _)
  rw [mapM_eq turnaround, mapM_eq waiting, totalWaited, Scenario.work, jobs, List.map_map,
    ← List.sum_map_add]
  exact ⟨rfl, rfl⟩

/-- On one processor, for processes that arrive together and all find a place in the queue, shortest
job first is the best: after any number of ticks it has completed no fewer processes than any other
discipline, and they have waited no longer in all. Both end together; completed, shortest job first
has no greater sum of turnarounds and no greater sum of net waiting. -/
theorem shortest_first_optimal (s : Scenario) (single : s.cpus = 1)
    (bursts : ∀ job ∈ s.jobs, 0 < job.burst) (room : s.jobs.length ≤ defaultQueueCapacity)
    (together : ∀ job ∈ s.jobs, job.arrival = arrival) (quantum : Nat) (d : Discipline) :
    let o := simulate ⟨.sjf, quantum⟩ s
    let o' := simulate d s
    (∀ n, ((begun d s).steps n).completed ≤ ((begun ⟨.sjf, quantum⟩ s).steps n).completed ∧
        ((begun ⟨.sjf, quantum⟩ s).steps n).totalWaited ≤ ((begun d s).steps n).totalWaited) ∧
      o.ending = o'.ending ∧ o.totalTicks = o'.totalTicks ∧
      (o.ending = .completed → ∃ t t' w w',
        o.total? (·.turnaround) = some t ∧ o'.total? (·.turnaround) = some t' ∧ t ≤ t' ∧
        o.total? (·.netWaiting) = some w ∧ o'.total? (·.netWaiting) = some w' ∧ w ≤ w') := by
  have together' : ∀ n, ((begun ⟨.sjf, quantum⟩ s).steps n).allFinished =
      ((begun d s).steps n).allFinished := by
    intro n
    apply Bool.eq_iff_iff.2
    rw [allFinished_begun_iff single bursts room, allFinished_begun_iff single bursts room]
  obtain ⟨k, outcome, outcome'⟩ := simulate_together ⟨.sjf, quantum⟩ d s together'
  have rest : ∀ e : Discipline, AtRest ((begun e s).steps k) := fun e => (atRest_begun e s).steps k
  have now : ∀ e : Discipline, ((begun e s).steps k).now = k := fun e =>
    ((atRest_begun e s).now_steps k).trans (Nat.zero_add k)
  rw [outcome, outcome']
  refine ⟨fun n => ⟨?_, totalWaited_begun_le single bursts room together quantum d n⟩, ?_,
    (now _).trans (now d).symm, fun completed => ?_⟩
  · rw [((atRest_begun d s).steps n).completed_eq, ((atRest_begun _ s).steps n).completed_eq]
    exact countCompleted_begun_le single bursts room together quantum d n
  · simp only [ending, together' k]
  · have done := ending_eq_completed_iff.1 completed
    have totals : ∀ e : Discipline, ((begun e s).steps k).allFinished = true → _ := fun e done =>
      ((balanced_begun e s bursts).steps (atRest_begun e s) k).total?_eq
        ((rest e).allFinished_iff.1 done)
    obtain ⟨turnaround, waiting⟩ := totals _ done
    obtain ⟨turnaround', waiting'⟩ := totals d (together' k ▸ done)
    have less := totalWaited_begun_le single bursts room together quantum d k
    have jobs : ∀ e : Discipline, ((begun e s).steps k).jobs = s.jobs := fun e =>
      ((atRest_begun e s).jobs_steps k).trans (jobs_begun e s)
    rw [jobs] at turnaround turnaround'
    exact ⟨_, _, _, _, turnaround, turnaround', Nat.add_le_add_left less _, waiting, waiting', less⟩

/-- Three processes that arrive together, the longest first. -/
def longestFirst : Scenario :=
  { cpus := 1, cpus_pos := Nat.one_pos, jobs := [⟨1, 1, 3, 0⟩, ⟨2, 1, 1, 0⟩, ⟨3, 1, 2, 0⟩] }

/-- Turns and the order of the workload both keep the short processes waiting. -/
theorem shortest_first_optimal_longest :
    let o := simulate ⟨.sjf, 2⟩ longestFirst
    let o' := simulate ⟨.roundRobin, 1⟩ longestFirst
    longestFirst.cpus = 1 ∧ (∀ job ∈ longestFirst.jobs, 0 < job.burst) ∧
      longestFirst.jobs.length ≤ defaultQueueCapacity ∧
      (∀ job ∈ longestFirst.jobs, job.arrival = 1) ∧ o.ending = .completed ∧
      (∀ n, ((begun ⟨.roundRobin, 1⟩ longestFirst).steps n).completed ≤
        ((begun ⟨.sjf, 2⟩ longestFirst).steps n).completed) ∧
      o.total? (·.turnaround) = some 10 ∧ o'.total? (·.turnaround) = some 13 ∧
      o.total? (·.netWaiting) = some 4 ∧ o'.total? (·.netWaiting) = some 7 := by
  intro o o'
  have bursts : ∀ job ∈ longestFirst.jobs, 0 < job.burst := by decide
  have room : longestFirst.jobs.length ≤ defaultQueueCapacity := by decide
  have together : ∀ job ∈ longestFirst.jobs, job.arrival = 1 := by decide
  obtain ⟨sooner, -⟩ :=
    shortest_first_optimal longestFirst rfl bursts room together 2 ⟨.roundRobin, 1⟩
  have completed : o.ending = .completed := by decide +kernel
  exact ⟨rfl, bursts, room, together, completed, fun n => (sooner n).1, by decide +kernel,
    by decide +kernel, by decide +kernel, by decide +kernel⟩

end Machine
end CpuScheduling
