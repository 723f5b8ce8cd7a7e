import CpuScheduling.Proofs.Execution
import CpuScheduling.Proofs.Samples
import CpuScheduling.Proofs.ShortestNext
import CpuScheduling.Proofs.Waiting
/-!
Aggregates. The averages of a run cover the completed processes and no others. Each of them took
its burst and its waiting from arrival to finish, and it had been waiting for its first dispatch
before it waited for anything else; so the totals of the three metrics stand in the same relations.
-/
namespace CpuScheduling

namespace ProcessRecord

/-- Who has not started is off every processor and has all of his work left. -/
def StartsWhole (p : ProcessRecord) : Prop :=
  p.StartsFirst ∧ (p.start = none → p.remaining = p.burst)

theorem enduring_startsWhole : Enduring StartsWhole where
  stand p status off whole := ⟨enduring_startsFirst.stand p status off whole.1, whole.2⟩
  dispatch p cpu now whole := by
    refine ⟨enduring_startsFirst.dispatch p cpu now whole.1, fun unstarted => ?_⟩
    have started : p.start.or (some now) = none := unstarted
    cases (Option.or_eq_none_iff.1 started).2
  pass p now whole := by
    refine ⟨enduring_startsFirst.pass p now whole.1, fun unstarted => ?_⟩
    rw [p.start_pass] at unstarted
    have off : p.isRunning = false := by
      refine Bool.eq_false_iff.2 fun running => ?_
      obtain ⟨cpu, at_cpu⟩ := isRunning_iff.1 running
      rcases whole.1 unstarted with stands | stands <;> cases stands.symm.trans at_cpu
    have burst : (p.pass now).burst = p.burst := congrArg (·.burst) (p.toJob_pass now)
    rw [remaining_pass_of_off now off, burst, whole.2 unstarted]

/-- The times of a process that has completed: from arrival to finish it worked its burst and
waited, and it responded after some of that waiting. -/
structure Concluded (p : ProcessRecord) : Prop where
  burst_pos : 0 < p.burst
  turnaround : p.turnaround = some (p.burst + p.waited)
  waiting : p.netWaiting = some p.waited
  response : ∃ response ≤ p.waited, p.response = some response

end ProcessRecord

namespace Machine
variable {m : Machine} {slot n : Nat} {p q : ProcessRecord}

theorem AtRest.waited_le_step (rest : AtRest m) (before : m.procs[slot]? = some p)
    (after : m.step.procs[slot]? = some q) : p.waited ≤ q.waited := by
  rw [rest.procs_step, List.getElem?_map] at after
  obtain ⟨r, shown, rfl⟩ := Option.map_eq_some_iff.1 after
  obtain ⟨p', before', same⟩ := exists_account_eq rest.accounts_occupied shown
  obtain rfl : p = p' := Option.some.inj (before.symm.trans before')
  have waited : p.waited = r.waited := congrArg (·.waited) same
  rcases r.waited_pass m.now with kept | ⟨more, -⟩ <;> omega

theorem AtRest.waited_le_steps (rest : AtRest m) (before : m.procs[slot]? = some p) (n : Nat)
    (after : (m.steps n).procs[slot]? = some q) : p.waited ≤ q.waited := by
  induction n generalizing q with
  | zero =>
    obtain rfl : p = q := Option.some.inj (before.symm.trans after)
    exact Nat.le_refl _
  | succ n ih =>
    obtain ⟨r, found, -⟩ := rest.exists_record after n
    rw [steps_succ] at after
    exact Nat.le_trans (ih found) ((rest.steps n).waited_le_step found after)

section Run
variable {start : Machine} (o : Outset start) (found : (start.steps n).procs[slot]? = some p)
include o found

theorem Outset.startsWhole : p.StartsWhole := by
  have whole : ∀ q ∈ start.procs, q.StartsWhole := by
    intro q member
    rw [o.fresh q member]
    exact ⟨fun _ => .inl rfl, fun _ => rfl⟩
  exact o.toAtRest.enduring_steps ProcessRecord.enduring_startsWhole whole n p
    (List.mem_of_getElem? found)

/-- All the time from arrival to start was waiting, and what has been waited stays. -/
theorem Outset.start_sub_le_waited {t : Nat} (started : p.start = some t) :
    t - p.arrival ≤ p.waited := by
  obtain ⟨r, at_slot, same, unstarted⟩ := o.exists_unstarted found started
  have whole : r.remaining = r.burst := (o.startsWhole at_slot).2 unstarted
  have going : r.isCompleted = false := by
    rcases (o.startsWhole at_slot).1 unstarted with stands | stands <;>
      simp [ProcessRecord.isCompleted, stands]
  have balance := (((o.balanced.steps o.toAtRest t) _
    (List.mem_map_of_mem (List.mem_of_getElem? at_slot))).unfinished going).2.2
  change r.waited + (r.burst - r.remaining) = (start.steps t).now - r.arrival at balance
  have arrival : r.arrival = p.arrival := congrArg (·.arrival) same
  rw [whole, Nat.sub_self, Nat.add_zero, o.now_steps, arrival] at balance
  have later : t + (n - t) = n := Nat.add_sub_cancel' (Nat.le_of_lt (o.lt_of_started found started))
  rw [← later, steps_add] at found
  rw [← balance]
  exact (o.toAtRest.steps t).waited_le_steps at_slot _ found

/-- No job is empty, since each is unfinished at the outset. -/
theorem Outset.burst_pos : 0 < p.burst := by
  obtain ⟨q, first, same⟩ := o.toAtRest.exists_record found 0
  have member : q ∈ start.procs := List.mem_of_getElem? first
  have fresh := o.fresh q member
  have work_left : 0 < q.remaining := o.balanced.work_left member (by rw [fresh]; rfl)
  rw [fresh] at work_left
  exact same ▸ work_left

theorem Outset.concluded (done : p.isCompleted = true) : p.Concluded := by
  have member := List.mem_of_getElem? found
  have account := o.balanced.steps o.toAtRest n _ (List.mem_map_of_mem member)
  obtain ⟨-, e, -, finish, whole⟩ := account.finished done
  change p.finish = some e at finish
  change e = p.arrival + p.burst + p.waited at whole
  have turnaround : p.turnaround = some (p.burst + p.waited) := by
    rw [ProcessRecord.turnaround, finish, Option.map_some, whole, Nat.add_assoc,
      Nat.add_sub_cancel_left]
  obtain ⟨t, started⟩ := (o.startsFirst found).started_of_completed (of_decide_eq_true done)
  refine ⟨o.burst_pos found, turnaround, ?_, t - p.arrival, o.start_sub_le_waited found started, ?_⟩
  · rw [ProcessRecord.netWaiting, turnaround, Option.map_some, Nat.add_sub_cancel_left]
  · rw [o.response_eq found, started, Option.map_some]

end Run

end Machine

/-- Averages that agree with the records of a run: all three count the completed processes, the
turnaround in all is their waiting and their work, as long as the clock can count it, and the
response in all is not more than the waiting. -/
structure Averages.Agrees (procs : List ProcessRecord) (a : Averages) : Prop where
  turnaround_count : a.turnaround.count = ProcessTable.countCompleted procs
  waiting_count : a.waiting.count = ProcessTable.countCompleted procs
  response_count : a.response.count = ProcessTable.countCompleted procs
  turnaround_total : (procs.filterMap (·.turnaround)).sum ≤ lastTick →
    a.turnaround.total = a.waiting.total + ((procs.filter (·.isCompleted)).map (·.burst)).sum
  response_le : a.response.total ≤ a.waiting.total

/-- Values that just some elements have, taken from those that have one. -/
theorem filterMap_eq_map_filter {α β : Type} {f : α → Option β} {g : α → β} {has : α → Bool}
    {l : List α} (some_value : ∀ a ∈ l, has a = true → f a = some (g a))
    (no_value : ∀ a ∈ l, has a = false → f a = none) : l.filterMap f = (l.filter has).map g := by
  rw [← List.filterMap_eq_map, List.filterMap_filter]
  refine List.filterMap_congr fun a member => ?_
  cases present : has a with
  | true => exact some_value a member present
  | false => exact no_value a member present

section Records
variable {procs : List ProcessRecord} (concluded : ∀ p ∈ procs, p.isCompleted = true → p.Concluded)
  (ends : ∀ p ∈ procs, p.isCompleted = false → p.finish = none)
include concluded ends

/-- The averages are taken over the completed processes. -/
theorem ofProcesses_eq : Averages.ofProcesses (procs.map .ofRecord) =
    let done := procs.filter (·.isCompleted)
    { turnaround := .ofList (done.map fun p => p.burst + p.waited)
      waiting := .ofList (done.map (·.waited))
      response := .ofList (done.map fun p => p.response.getD 0) } := by
  have triples : (procs.map ProcessStatistics.ofRecord).filterMap (·.triple?) =
      (procs.filter (·.isCompleted)).map fun p =>
        (p.burst + p.waited, p.waited, p.response.getD 0) := by
    rw [List.filterMap_map]
    refine filterMap_eq_map_filter (fun p member done => ?_) fun p member going => ?_
    · obtain ⟨-, turnaround, waiting, response, -, responded⟩ := concluded p member done
      simp [ProcessStatistics.triple?, ProcessStatistics.ofRecord, turnaround, waiting, responded]
    · simp [ProcessStatistics.triple?, ProcessStatistics.ofRecord, ProcessRecord.turnaround,
        ends p member going]
  unfold Averages.ofProcesses
  rw [triples]
  simp only [List.map_map]
  rfl

theorem turnarounds_eq : procs.filterMap (·.turnaround) =
    (procs.filter (·.isCompleted)).map fun p => p.burst + p.waited :=
  filterMap_eq_map_filter (fun p member done => (concluded p member done).turnaround)
    fun p member going => by rw [ProcessRecord.turnaround, ends p member going, Option.map_none]

theorem agrees_ofProcesses : (Averages.ofProcesses (procs.map .ofRecord)).Agrees procs := by
  have count : ProcessTable.countCompleted procs = (procs.filter (·.isCompleted)).length :=
    List.countP_eq_length_filter
  have whole : ((procs.filter (·.isCompleted)).map fun p => p.burst + p.waited).sum =
      ((procs.filter (·.isCompleted)).map (·.burst)).sum +
        ((procs.filter (·.isCompleted)).map (·.waited)).sum := List.sum_map_add
  have responses : ((procs.filter (·.isCompleted)).map fun p => p.response.getD 0).sum ≤
      ((procs.filter (·.isCompleted)).map (·.waited)).sum := by
    refine List.sum_le_sum fun p member => ?_
    obtain ⟨inside, done⟩ := List.mem_filter.1 member
    obtain ⟨response, upto, responded⟩ := (concluded p inside done).response
    rwa [responded]
  rw [ofProcesses_eq concluded ends]
  refine ⟨?_, ?_, ?_, fun within => ?_, ?_⟩
  case refine_4 =>
    rw [turnarounds_eq concluded ends] at within
    rw [Metric.total_ofList, Metric.total_ofList, Nat.min_eq_left within]
    omega
  case refine_5 =>
    rw [Metric.total_ofList, Metric.total_ofList]
    omega
  all_goals rw [count, Metric.count_ofList, List.length_map]

/-- Averages are given if there are completed processes. -/
theorem averages_ofOutcome {o : Outcome} (procs_eq : o.machine.procs = procs) :
    (Statistics.ofOutcome o).averages =
      if 0 < ProcessTable.countCompleted procs then
        some (Averages.ofProcesses (procs.map .ofRecord)) else none := by
  rw [← (agrees_ofProcesses concluded ends).turnaround_count, ← procs_eq]
  rfl

/-- If no process waited but for its first dispatch, response and waiting are one in all. -/
theorem response_total_eq
    (responded : ∀ p ∈ procs, p.isCompleted = true → p.response = some p.waited) :
    (Averages.ofProcesses (procs.map .ofRecord)).response.total =
      (Averages.ofProcesses (procs.map .ofRecord)).waiting.total := by
  rw [ofProcesses_eq concluded ends]
  refine congrArg (fun values => (Metric.ofList values).total)
    (List.map_congr_left fun p member => ?_)
  obtain ⟨inside, done⟩ := List.mem_filter.1 member
  rw [responded p inside done, Option.getD_some]

end Records

/-- The busy ticks of all processors are those that the machine counted. -/
theorem busyTicks_ofOutcome (o : Outcome) :
    (Statistics.ofOutcome o).busyTicks = o.machine.busyTicks := by
  have busy : (Statistics.ofOutcome o).cpus.map (·.busy) = o.machine.cpus.toList.map (·.busy) := by
    have stored : (o.machine.cpus.toList.zipIdx.map (·.1)).map (·.busy) =
        o.machine.cpus.toList.map (·.busy) := by rw [List.zipIdx_map_fst]
    rw [← stored, Statistics.ofOutcome, List.map_map, List.map_map]
    rfl
  rw [Statistics.busyTicks, Machine.busyTicks, ← busy, List.sum_eq_foldl, List.foldl_map]

namespace Machine

section Simulation
variable (d : Discipline) (s : Scenario) (bursts : ∀ job ∈ s.jobs, 0 < job.burst)
include bursts

theorem concluded_simulate :
    (∀ p ∈ (simulate d s).machine.procs, p.isCompleted = true → p.Concluded) ∧
      ∀ p ∈ (simulate d s).machine.procs, p.isCompleted = false → p.finish = none := by
  have begins : Outset (begun d s) := outset_begun d s bursts
  refine ⟨forall_procs_simulate fun n slot p found => begins.concluded found,
    forall_procs_simulate fun n slot p found going => ?_⟩
  have balanced := begins.balanced.steps begins.toAtRest n
  exact ((balanced _ (List.mem_map_of_mem (List.mem_of_getElem? found))).unfinished going).2.1

/-- Where nobody loses a processor a process waits for its first dispatch alone. -/
theorem responded_simulate (unmarked : d.algorithm = .fcfs ∨ d.algorithm = .sjf) :
    ∀ p ∈ (simulate d s).machine.procs, p.isCompleted = true → p.response = some p.waited := by
  have begins : Outset (begun d s) := outset_begun d s bursts
  have marks : (begun d s).policy.algorithm.marksReady = false := by
    have under : (begun d s).policy.algorithm = d.algorithm := Policy.algorithm_start _ _
    rw [under]
    rcases unmarked with first | shortest
    · rw [first]; rfl
    · rw [shortest]; rfl
  refine forall_procs_simulate fun n slot p found done => ?_
  have completed : p.status = .completed := of_decide_eq_true done
  obtain ⟨t, started⟩ := (begins.startsFirst found).started_of_completed completed
  obtain ⟨e, runs⟩ := begins.runsWhole found (charted_begun d s) marks (started ▸ rfl)
  exact (runs.completed completed).2.1

end Simulation

/-- The statistics of a run agree with it: averages are given just if a process has completed, and
then agree with the records; every completed process has responded after some of its waiting, which
was counted tick by tick and is less than its turnaround; and the busy ticks are the work done. -/
theorem statistics_agree (d : Discipline) (s : Scenario)
    (bursts : ∀ job ∈ s.jobs, 0 < job.burst) :
    let o := simulate d s
    let procs := o.machine.procs
    ((Statistics.ofOutcome o).averages = none ↔ ∀ p ∈ procs, p.status ≠ .completed) ∧
      (∀ a, (Statistics.ofOutcome o).averages = some a → a.Agrees procs ∧
        (d.algorithm = .fcfs ∨ d.algorithm = .sjf → a.response.total = a.waiting.total)) ∧
      (∀ p ∈ procs, let q := ProcessStatistics.ofRecord p
        q ∈ (Statistics.ofOutcome o).processes ∧ (q.isCompleted = true ↔ p.status = .completed) ∧
          (q.isCompleted = true → ∃ turnaround waiting response,
            q.turnaround = some turnaround ∧ q.waiting = some waiting ∧ q.response = some response ∧
              response ≤ waiting ∧ waiting = q.accruedWaiting ∧ waiting < turnaround)) ∧
      (∀ p ∈ procs, p.remaining ≤ p.burst) ∧
      (Statistics.ofOutcome o).busyTicks = (procs.map fun p => p.burst - p.remaining).sum := by
  intro o procs
  obtain ⟨concluded, ends⟩ := concluded_simulate d s bursts
  have averages := averages_ofOutcome concluded ends rfl
  have rest := atRest_begun d s
  have balanced := (balanced_begun d s bursts).steps rest o.totalTicks
  have executes := (executesOnce_begun d s).steps rest (charted_begun d s)
    (balanced_begun d s bursts) o.totalTicks
  have ended : o.machine = ((begun d s).steps o.totalTicks).conclude s.bound := machine_simulate d s
  have last : procs = ((begun d s).steps o.totalTicks).procs := congrArg (·.procs) ended
  have finish_iff : ∀ p ∈ procs,
      (ProcessStatistics.ofRecord p).isCompleted = true ↔ p.status = .completed := by
    intro p member
    have inside := last ▸ member
    exact (balanced.isSome_finish_iff inside).trans (balanced.completed_iff inside).symm
  refine ⟨?none_iff, fun a given => ?agrees, fun p member => ⟨List.mem_map_of_mem member,
    finish_iff p member, fun finished => ?times⟩, ?bound, ?busy⟩
  case none_iff =>
    have some_completed : 0 < ProcessTable.countCompleted procs ↔
        ∃ p ∈ procs, p.status = .completed := by
      simp [ProcessTable.countCompleted, List.countP_pos_iff, ProcessRecord.isCompleted]
    rw [averages]
    split
    next covered =>
      obtain ⟨p, member, done⟩ := some_completed.1 covered
      exact iff_of_false (Option.some_ne_none _) fun none_done => none_done p member done
    next nobody =>
      exact iff_of_true rfl fun p member done => nobody (some_completed.2 ⟨p, member, done⟩)
  case agrees =>
    rw [averages] at given
    split at given
    next =>
      cases given
      exact ⟨agrees_ofProcesses concluded ends, fun unmarked =>
        response_total_eq concluded ends (responded_simulate d s bursts unmarked)⟩
    next => cases given
  case times =>
    have done : p.isCompleted = true := decide_eq_true ((finish_iff p member).1 finished)
    obtain ⟨some_work, turnaround, waiting, response, upto, responded⟩ := concluded p member done
    exact ⟨_, _, response, turnaround, waiting, responded, upto, rfl,
      Nat.lt_add_of_pos_left some_work⟩
  case bound => exact last ▸ executes.remaining_le
  case busy =>
    have busy : o.machine.busyTicks = ((begun d s).steps o.totalTicks).busyTicks := by
      rw [ended]
      rfl
    rw [busyTicks_ofOutcome, busy, last]
    exact executes.whole

/-- A run that ends after two ticks: the averages cover the shorter job alone, and the longer one,
which has started, counts with the tick that it has worked. -/
theorem statistics_agree_cut_off :
    let s := { shorterArrival with limit := some 2 }
    let procs := (simulate ⟨.srtf, 2⟩ s).machine.procs
    let stats := Statistics.ofOutcome (simulate ⟨.srtf, 2⟩ s)
    (∀ job ∈ s.jobs, 0 < job.burst) ∧ procs.map (·.remaining) = [2, 0] ∧
      (∃ a, stats.averages = some a ∧ a.Agrees procs ∧ a.response.count = 1 ∧
        a.turnaround.total = a.waiting.total + 1) ∧ stats.busyTicks = 2 := by
  intro s procs stats
  have bursts : ∀ job ∈ s.jobs, 0 < job.burst := by decide
  obtain ⟨none_iff, agrees, -, -, busy⟩ := statistics_agree ⟨.srtf, 2⟩ s bursts
  obtain ⟨a, given⟩ : ∃ a, stats.averages = some a := by
    refine Option.ne_none_iff_exists'.1 fun absent => ?_
    have nobody := none_iff.1 absent
    revert nobody
    decide +kernel
  obtain ⟨agree, -⟩ := agrees a given
  have count : ProcessTable.countCompleted procs = 1 := by decide +kernel
  have within : (procs.filterMap (·.turnaround)).sum ≤ lastTick := by decide +kernel
  have work : ((procs.filter (·.isCompleted)).map (·.burst)).sum = 1 := by decide +kernel
  have done : (procs.map fun p => p.burst - p.remaining).sum = 2 := by decide +kernel
  exact ⟨bursts, by decide +kernel, ⟨a, given, agree, agree.response_count.trans count,
    work ▸ agree.turnaround_total within⟩, busy.trans done⟩

end Machine
end CpuScheduling
