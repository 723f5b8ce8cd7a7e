import CpuScheduling.Proofs.Following
/-!
First come, first served is list scheduling. At any moment of a run the placements of the whole
line are those of the processes that were dispatched so far, followed by the placements of the line
that is left on the processors as they are.
-/
namespace CpuScheduling.Machine
variable {m : Machine} {cpu slot : Nat} {done : List Placement} {free : List Nat}
  {line : List (Job × Nat)} {plan : List Placement}

/-- A machine that carries a plan out, with nothing left of it that starts before a tick. -/
def Tracks (plan : List Placement) (soonest : Nat) (m : Machine) : Prop :=
  ∃ done free line, plan = done ++ schedule free line ∧ Follows m done free line ∧
    ∀ p ∈ schedule free line, soonest ≤ p.start

/-! One tick. -/

theorem choose_of_fcfs (policy : m.policy = .fcfs) : m.choose.2 = m :=
  choose_of_queue?_eq_none (by rw [policy]; rfl)

/-- With all processors busy nothing of the plan is due in this tick. -/
theorem Tracks.next_of_busy (t : Tracks plan m.now m) (h : Consistent m) (size : 0 < m.cpus.size)
    (busy : ∀ c, m.isIdleAt c = false) : Tracks plan (m.now + 1) m := by
  obtain ⟨done, free, line, split, f, -⟩ := t
  refine ⟨done, free, line, split, f, le_start_of_free ?_ (fun g member => ?_) line⟩
  · exact List.ne_nil_of_length_pos (f.width ▸ size)
  · obtain ⟨c, found⟩ := List.mem_iff_getElem?.1 member
    have inside : c < m.cpus.size := f.width ▸ (List.getElem?_eq_some_iff.1 found).1
    cases holds : m.held c with
    | some slot => exact f.lt_of_held h holds found
    | none =>
      have idle := isIdleAt_iff.2 ⟨inside, holds⟩
      rw [busy c] at idle
      cases idle

/-- Nor is anything if nobody can be chosen. -/
theorem Tracks.next_of_no_choice (t : Tracks plan m.now m) (policy : m.policy = .fcfs)
    (no_choice : m.choose.1 = none) : Tracks plan (m.now + 1) m := by
  obtain ⟨done, free, line, split, f, -⟩ := t
  refine ⟨done, free, line, split, f, le_start_of_arrival (fun e member => ?_) free⟩
  obtain ⟨r, found, job, waiting, -⟩ := f.pending e member
  refine Nat.lt_of_not_le fun arrived => ?_
  have no_queue : m.policy.queue? = none := by rw [policy]; rfl
  exact not_waiting_of_choose no_queue no_choice (List.mem_of_getElem? found)
    ((congrArg (·.arrival) job).trans_le arrived) waiting

/-- The first idle processor gets who stands first in line, as planned. -/
theorem Tracks.dispatch (t : Tracks plan m.now m) (h : Consistent m) (policy : m.policy = .fcfs)
    (idle : m.isIdleAt cpu = true) (lowest : ∀ c < cpu, m.isIdleAt c = false)
    (chosen : m.choose.1 = some slot) : Tracks plan m.now (m.dispatch cpu slot) := by
  obtain ⟨done, free, line, split, f, late⟩ := t
  obtain ⟨e, line, rfl, rfl, arrived⟩ := f.head_of_choose policy chosen
  have placed := f.place_eq h idle lowest arrived (late _ List.mem_cons_self)
  rw [schedule, placed] at split late
  exact ⟨_, _, line, by rw [split, List.append_assoc]; rfl, f.dispatch h idle, fun p member =>
    late p (List.mem_cons_of_mem _ member)⟩

/-- Filling lets nothing of the plan pass that is due: an idle processor gets who stands first in
line, and one is left idle only if nobody in line has arrived. -/
theorem Tracks.occupyThese (t : Tracks plan m.now m) (h : Consistent m) (policy : m.policy = .fcfs)
    (size : 0 < m.cpus.size) {cpus : List Nat} (ascending : cpus.Pairwise (· < ·))
    (all : ∀ c, m.isIdleAt c = true → c ∈ cpus) :
    Tracks plan (m.now + 1) (m.occupyThese cpus) := by
  refine occupyThese_induction (P := fun cpus x y => Tracks plan x.now x → Consistent x →
    x.policy = .fcfs → 0 < x.cpus.size → cpus.Pairwise (· < ·) →
    (∀ c, x.isIdleAt c = true → c ∈ cpus) → Tracks plan (x.now + 1) y)
    ?_ ?_ ?_ ?_ cpus m t h policy size ascending all
  case refine_1 =>
    rintro x t h - size - all
    exact t.next_of_busy h size fun c => Bool.eq_false_iff.2 fun idle =>
      List.not_mem_nil (all c idle)
  case refine_2 =>
    intro cpu rest x working ih t h policy size ascending all
    refine ih t h policy size (List.pairwise_cons.1 ascending).2 fun c idle => ?_
    rcases List.mem_cons.1 (all c idle) with rfl | later
    · rw [working] at idle
      cases idle
    · exact later
  case refine_3 =>
    rintro cpu rest x - no_choice t - policy - - -
    rw [choose_of_fcfs policy]
    exact t.next_of_no_choice policy no_choice
  case refine_4 =>
    intro cpu rest x slot idle chosen ih t h policy size ascending all
    obtain ⟨before, ascending⟩ := List.pairwise_cons.1 ascending
    have lowest : ∀ c < cpu, x.isIdleAt c = false := by
      intro c less
      refine Bool.eq_false_iff.2 fun idle => ?_
      rcases List.mem_cons.1 (all c idle) with same | later
      · exact absurd same (Nat.ne_of_lt less)
      · exact Nat.lt_asymm less (before c later)
    have moved := moves_assign h idle chosen
    obtain ⟨r, found, -⟩ := pending_of_choose h chosen
    have next := t.dispatch h policy idle lowest chosen
    rw [choose_of_fcfs policy] at ih moved ⊢
    rw [now_dispatch] at ih
    refine ih next (h.moves moved) (by rw [policy_dispatch, policy])
      (by rwa [size_cpus_dispatch]) ascending fun c idle' => ?_
    obtain ⟨other, idle'⟩ := idle_of_dispatch found idle idle'
    exact (List.mem_cons.1 (all c idle')).resolve_left other

theorem rescheduled_of_fcfs (policy : m.policy = .fcfs) : m.rescheduled = m.enrolled :=
  rescheduled_of_unmarked (by rw [policy]; rfl)

theorem Tracks.occupied (t : Tracks plan m.now m) (rest : AtRest m) (policy : m.policy = .fcfs)
    (size : 0 < m.cpus.size) : Tracks plan (m.now + 1) m.occupied := by
  have procs : m.enrolled.procs = m.procs := by
    rw [procs_enrolled, policy]
    exact List.map_id' _
  have enrolled : Tracks plan m.now m.enrolled := by
    obtain ⟨done, free, line, split, f, late⟩ := t
    exact ⟨done, free, line, split, f.congr procs rfl rfl rfl, late⟩
  rw [Machine.occupied, rescheduled_of_fcfs policy]
  exact enrolled.occupyThese rest.enrolled policy size List.pairwise_lt_range fun c idle =>
    List.mem_range.2 (isIdleAt_iff.1 idle).1

theorem Pending.step (rest : AtRest m) {e : Job × Nat} (pending : m.occupied.Pending e) :
    m.step.Pending e := by
  obtain ⟨r, found, job, waiting, fresh, whole, work_left⟩ := pending
  have off : ∀ cpu, Status.waiting ≠ .running cpu := by simp
  have idle : r.isRunning = false := by rw [ProcessRecord.isRunning, waiting]
  have remaining := ProcessRecord.remaining_pass_of_off m.now idle
  have same := r.toJob_pass m.now
  have burst : (r.pass m.now).burst = r.burst := congrArg (·.burst) same
  refine ⟨r.pass m.now, ?_, same.trans job, (r.status_pass m.now off (by simp)).2 waiting,
    (r.start_pass m.now).trans fresh, ?_, ?_⟩
  · rw [rest.procs_step, List.getElem?_map, found, Option.map_some]
  · rw [remaining, burst, whole]
  · rwa [remaining]

theorem Placed.step (rest : AtRest m) {p : Placement} (placed : m.occupied.Placed p) :
    m.step.Placed p := by
  obtain ⟨r, found, job, start, past, state⟩ := placed
  rw [rest.now_occupied] at past state
  unfold Placed
  rw [rest.now_step]
  refine ⟨r.pass m.now, ?_, (r.toJob_pass m.now).trans job, (r.start_pass m.now).trans start,
    Nat.le_succ_of_le past, ?_⟩
  · rw [rest.procs_step, List.getElem?_map, found, Option.map_some]
  rcases state with ⟨running, work_left, ends⟩ | ⟨completed, finish, ended⟩
  · have work : r.pass m.now = r.work m.now := if_pos (ProcessRecord.isRunning_iff.2 ⟨_, running⟩)
    by_cases last : r.remaining = 1
    · right
      have finish : p.finish = m.now + 1 := last ▸ ends.symm
      refine ⟨?_, ?_, Nat.le_of_eq finish⟩
      · rw [work, r.status_work, if_pos (Nat.le_of_eq last)]
      · simp [work, ProcessRecord.work, last, finish]
    · left
      refine ⟨ProcessRecord.status_pass_running.2 ⟨running, by omega⟩, ?_, ?_⟩ <;>
        rw [work, r.remaining_work] <;> omega
  · right
    have same : r.pass m.now = r := by
      simp [ProcessRecord.pass, ProcessRecord.isRunning, ProcessRecord.ageWaiting,
        ProcessRecord.isCompleted, completed]
    rw [same]
    exact ⟨completed, finish, Nat.le_succ_of_le ended⟩

theorem Follows.step (f : Follows m.occupied done free line) (rest : AtRest m) :
    Follows m.step done free line := by
  have procs : ∀ s : Nat, m.step.procs[s]? = m.occupied.procs[s]?.map fun r => r.pass m.now := by
    intro s
    rw [rest.procs_step, List.getElem?_map]
  have size : m.step.cpus.size = m.occupied.cpus.size :=
    rest.size_cpus_step.trans rest.size_cpus_occupied.symm
  have busy := f.busy
  have vacant := f.idle
  rw [rest.now_occupied] at busy vacant
  constructor
  case placed => exact fun p member => (f.placed p member).step rest
  case pending => exact fun e member => (f.pending e member).step rest
  case covered =>
    rw [rest.procs_step, List.length_map]
    exact f.covered
  case sorted => exact f.sorted
  case nodup => exact f.nodup
  case width => rw [f.width, size]
  case busy =>
    intro cpu slot q holds found
    have running := rest.step.running_of_held holds found
    rw [procs] at found
    obtain ⟨r, before, rfl⟩ := Option.map_eq_some_iff.1 found
    obtain ⟨at_cpu, more⟩ := ProcessRecord.status_pass_running.1 running
    have held := (rest.consistent_occupied.matching cpu slot).2
      (status?_eq_some.2 ⟨r, before, at_cpu⟩)
    have work : r.pass m.now = r.work m.now := if_pos (ProcessRecord.isRunning_iff.2 ⟨cpu, at_cpu⟩)
    rw [busy cpu slot r held before, rest.now_step, work, r.remaining_work]
    congr 1
    omega
  case idle =>
    intro cpu g free_now found
    rw [rest.now_step]
    cases holds : m.occupied.held cpu with
    | none => exact Nat.le_succ_of_le (vacant cpu g holds found)
    | some slot =>
      -- who left the processor in this tick has done its last unit of work
      obtain ⟨r, before, at_cpu⟩ := rest.consistent_occupied.slot_lt_of_held holds
      have last : r.remaining ≤ 1 := by
        by_contra more
        have runs : (r.pass m.now).status = .running cpu :=
          ProcessRecord.status_pass_running.2 ⟨at_cpu, Nat.lt_of_not_le more⟩
        have still := (rest.step.matching cpu slot).2
          (status?_eq_some.2 ⟨r.pass m.now, by rw [procs, before, Option.map_some], runs⟩)
        rw [free_now] at still
        cases still
      rw [busy cpu slot r holds before] at found
      obtain rfl := Option.some.inj found
      omega
  case recorded =>
    rw [rest.grows_occupied.ofKind_eq fun e next => by rw [next.2]; exact nofun, f.recorded]

theorem Tracks.step (t : Tracks plan m.now m) (rest : AtRest m) (policy : m.policy = .fcfs)
    (size : 0 < m.cpus.size) : Tracks plan m.step.now m.step := by
  obtain ⟨done, free, line, split, f, late⟩ := t.occupied rest policy size
  rw [rest.now_step]
  exact ⟨done, free, line, split, f.step rest, late⟩

/-- The row of a tick shows what the plan has in it. -/
theorem Tracks.running_iff (t : Tracks plan (m.now + 1) m) (h : Consistent m) {pid : Int} :
    m.running cpu = some pid ↔ ∃ p ∈ plan, p.Covers m.now cpu ∧ p.job.pid = pid := by
  obtain ⟨done, free, line, rfl, f, late⟩ := t
  constructor
  · intro shown
    obtain ⟨slot, holds, named⟩ := Option.bind_eq_some_iff.1 shown
    obtain ⟨r, found, running⟩ := h.slot_lt_of_held holds
    obtain ⟨p, member, rfl⟩ := f.placed_of_not_waiting found (by rw [running]; exact nofun)
    obtain ⟨r', found', job, -, past, state⟩ := f.placed p member
    obtain rfl : r = r' := Option.some.inj (found.symm.trans found')
    rw [pid_of_getElem? found] at named
    have pid_eq : p.job.pid = pid := job ▸ Option.some.inj named
    rcases state with ⟨at_cpu, work_left, ends⟩ | ⟨completed, -⟩
    · rw [running] at at_cpu
      have on_cpu := (Status.running.inj at_cpu).symm
      exact ⟨p, List.mem_append_left _ member, ⟨on_cpu, past, by omega⟩, pid_eq⟩
    · rw [running] at completed
      cases completed
  · rintro ⟨p, member, ⟨rfl, past, ahead⟩, rfl⟩
    rcases List.mem_append.1 member with placed | later
    · obtain ⟨r, found, job, -, -, ⟨running, -⟩ | ⟨-, -, ended⟩⟩ := f.placed p placed
      · have holds := (h.matching p.cpu p.slot).2 (status?_eq_some.2 ⟨r, found, running⟩)
        rw [running_of_held holds found]
        exact congrArg (some ·.pid) job
      · exact absurd ahead (Nat.not_lt_of_le ended)
    · exact absurd past (Nat.not_le_of_lt (late p later))

/-- When all have completed, nobody stands in line, and every placement is behind. -/
theorem Tracks.ended (t : Tracks plan m.now m) (all : ∀ r ∈ m.procs, r.status = .completed) :
    m.trace.ofKind .dispatched = plan.map Placement.event ∧
      ∀ p ∈ plan, ∃ r, m.procs[p.slot]? = some r ∧ r.toJob = p.job ∧ r.start = some p.start ∧
        r.finish = some p.finish ∧ p.finish ≤ m.now := by
  obtain ⟨done, free, line, split, f, -⟩ := t
  have whole : plan = done := by
    cases line with
    | nil => rw [split, schedule, List.append_nil]
    | cons e line =>
      obtain ⟨r, found, -, waiting, -⟩ := f.pending e List.mem_cons_self
      have completed := all r (List.mem_of_getElem? found)
      rw [waiting] at completed
      cases completed
  subst whole
  refine ⟨f.recorded, fun p member => ?_⟩
  obtain ⟨r, found, job, start, -, ⟨running, -⟩ | ⟨-, finish, ended⟩⟩ := f.placed p member
  · have completed := all r (List.mem_of_getElem? found)
    rw [running] at completed
    cases completed
  · exact ⟨r, found, job, start, finish, ended⟩

/-! Runs. -/

section Run
variable (rest : AtRest m) (policy : m.policy = .fcfs) (n : Nat)
include rest policy

theorem AtRest.fcfs_steps : (m.steps n).policy = .fcfs :=
  (rest.policy_steps_eq (by rw [policy]; rfl) n).trans policy

theorem AtRest.dropped_steps_of_fcfs : (m.steps n).dropped = m.dropped := by
  induction n with
  | zero => rfl
  | succ n ih =>
    rw [steps_succ, dropped_step, ← ih]
    refine (dropped_occupyThese _ _).trans ?_
    rw [rescheduled_of_fcfs (rest.fcfs_steps policy n)]
    rfl

theorem Tracks.steps (t : Tracks plan m.now m) (size : 0 < m.cpus.size) :
    Tracks plan (m.steps n).now (m.steps n) := by
  induction n with
  | zero => exact t
  | succ n ih =>
    rw [steps_succ]
    exact ih.step (rest.steps n) (rest.fcfs_steps policy n) (rest.size_cpus_steps n ▸ size)

end Run

/-- The timeline of a run shows what the plan has in each of its ticks. -/
theorem Tracks.get_steps_iff (t : Tracks plan m.now m) (rest : AtRest m) (policy : m.policy = .fcfs)
    (size : 0 < m.cpus.size) (c : Charted m) {tick n : Nat} (early : tick < n) {pid : Int} :
    (m.steps n).timeline.get (m.now + tick) cpu = some pid ↔
      ∃ p ∈ plan, p.Covers (m.now + tick) cpu ∧ p.job.pid = pid := by
  have rest' := rest.steps tick
  have row := (t.steps rest policy tick size).occupied rest' (rest.fcfs_steps policy tick)
    (rest.size_cpus_steps tick ▸ size)
  rw [← rest'.now_occupied] at row
  rw [c.get_steps rest early, row.running_iff rest'.consistent_occupied, rest'.now_occupied,
    rest.now_steps]

theorem follows_boot (s : Scenario) (bursts : ∀ job ∈ s.jobs, 0 < job.burst) (policy : Policy) :
    Follows (boot s policy) [] (List.replicate s.cpus 0) (inLine s.jobs) where
  placed := nofun
  pending := by
    rintro ⟨job, slot⟩ member
    have found : s.jobs[slot]? = some job := mem_inLine.1 member
    have record : (boot s policy).procs[slot]? = some job.toRecord := by
      show (s.jobs.map Job.toRecord)[slot]? = _
      rw [List.getElem?_map, found, Option.map_some]
    exact ⟨_, record, rfl, rfl, rfl, rfl, bursts job (List.mem_of_getElem? found)⟩
  covered slot bound := by
    rw [boot, ProcessTable.length_ofJobs] at bound
    exact .inr ⟨(s.jobs[slot], slot), mem_inLine.2 (List.getElem?_eq_getElem bound), rfl⟩
  sorted := pairwise_inLine s.jobs
  nodup := nodup_inLine s.jobs
  width := by rw [List.length_replicate, boot, Array.size_replicate]
  busy cpu slot r holds := by
    rw [held_boot] at holds
    cases holds
  idle cpu f _ found := Nat.le_of_eq (List.mem_replicate.1 (List.mem_of_getElem? found)).2
  recorded := rfl

theorem tracks_begun (d : Discipline) (s : Scenario) (bursts : ∀ job ∈ s.jobs, 0 < job.burst) :
    Tracks s.listSchedule (begun d s).now (begun d s) :=
  ⟨[], List.replicate s.cpus 0, inLine s.jobs, rfl,
    (follows_boot s bursts d.policy).congr rfl rfl rfl rfl, fun _ _ => Nat.zero_le _⟩

/-- First come, first served schedules the line of jobs as list scheduling does: every process
starts and finishes as it is placed there, is dispatched once, on the processor and in the order of
the placements, and the timeline shows just the placements. -/
theorem first_come_list_schedule (s : Scenario) (bursts : ∀ job ∈ s.jobs, 0 < job.burst)
    (long : s.span ≤ s.bound) (quantum : Nat) :
    let o := simulate ⟨.fcfs, quantum⟩ s
    (s.listSchedule.map (·.slot)).Perm (List.range s.jobs.length) ∧
    (∀ p ∈ s.listSchedule, s.jobs[p.slot]? = some p.job ∧ ∃ r, o.machine.procs[p.slot]? = some r ∧
      r.start = some p.start ∧ r.finish = some p.finish) ∧
    o.machine.trace.ofKind .dispatched = s.listSchedule.map Placement.event ∧
    ∀ tick cpu pid, o.occupantAt tick cpu = some pid ↔
      ∃ p ∈ s.listSchedule, p.Covers tick cpu ∧ p.job.pid = pid := by
  let d : Discipline := ⟨.fcfs, quantum⟩
  obtain ⟨k, -, outcome, busy, stop⟩ := simulate_eq d s
  have rest := atRest_begun d s
  have size : 0 < (begun d s).cpus.size := size_cpus_begun d s ▸ s.cpus_pos
  have done := allFinished_begun bursts long busy stop (rest.dropped_steps_of_fcfs rfl k)
  have all := (rest.steps k).allFinished_iff.1 done
  have now : ((begun d s).steps k).now = k := (rest.now_steps k).trans (Nat.zero_add k)
  obtain ⟨recorded, ended⟩ := ((tracks_begun d s bursts).steps rest rfl k size).ended all
  intro o
  have machine : o = _ := outcome
  rw [machine]
  refine ⟨listSchedule_perm s, fun p member => ?_, ?_, fun tick cpu pid => ?_⟩
  · obtain ⟨r, found, job, start, finish, -⟩ := ended p member
    refine ⟨?_, r, found, start, finish⟩
    rw [← jobs_begun d s, ← rest.jobs_steps k, jobs, List.getElem?_map, found, Option.map_some, job]
  · exact recorded
  · by_cases early : tick < k
    · rw [← show (begun d s).now + tick = tick from Nat.zero_add tick]
      exact (tracks_begun d s bursts).get_steps_iff rest rfl size (charted_begun d s) early
    · have late := Nat.le_of_not_lt early
      have blank := ((charted_begun d s).steps rest k).get_of_le (now.trans_le late) cpu
      refine iff_of_false (fun shown => ?_) ?_
      · cases blank.symm.trans shown
      · rintro ⟨p, member, ⟨-, -, ahead⟩, -⟩
        obtain ⟨-, -, -, -, -, finish⟩ := ended p member
        omega

/-- Two processors and three jobs; the second goes before the first by its priority. -/
def tiedArrivals : Scenario :=
  { cpus := 2, cpus_pos := Nat.two_pos, jobs := [⟨1, 0, 3, 0⟩, ⟨2, 0, 2, 1⟩, ⟨3, 1, 1, 0⟩] }

/-- The third process waits for the processor that is free first. -/
theorem first_come_list_schedule_tied :
    let o := simulate ⟨.fcfs, 2⟩ tiedArrivals
    (∀ job ∈ tiedArrivals.jobs, 0 < job.burst) ∧ tiedArrivals.span ≤ tiedArrivals.bound ∧
      tiedArrivals.listSchedule.map (fun p => (p.slot, p.cpu, p.start, p.finish)) =
        [(1, 0, 0, 2), (0, 1, 0, 3), (2, 0, 2, 3)] ∧
      o.machine.trace.ofKind .dispatched =
        [⟨0, 0, .dispatched, 2⟩, ⟨0, 1, .dispatched, 1⟩, ⟨2, 0, .dispatched, 3⟩] ∧
      o.occupantAt 2 0 = some 3 := by
  intro o
  have bursts : ∀ job ∈ tiedArrivals.jobs, 0 < job.burst := by decide
  have long : tiedArrivals.span ≤ tiedArrivals.bound := by decide
  obtain ⟨-, -, dispatches, cells⟩ := first_come_list_schedule tiedArrivals bursts long 2
  have events : tiedArrivals.listSchedule.map Placement.event =
      [⟨0, 0, .dispatched, 2⟩, ⟨0, 1, .dispatched, 1⟩, ⟨2, 0, .dispatched, 3⟩] := by decide +kernel
  have third : ∃ p ∈ tiedArrivals.listSchedule, p.Covers 2 0 ∧ p.job.pid = 3 :=
    ⟨⟨⟨3, 1, 1, 0⟩, 2, 0, 2⟩, by decide +kernel, ⟨rfl, by decide, by decide⟩, rfl⟩
  exact ⟨bursts, long, by decide +kernel, dispatches.trans events, (cells 2 0 3).2 third⟩

end CpuScheduling.Machine
