import CpuScheduling.Proofs.Progress
/-!
Completion. A run that may take as long as the horizon of its scenario, and whose queue refuses
nobody, finishes every process, and stops in the tick in which the last one finishes.
-/
namespace CpuScheduling

namespace Scenario

/-- The work of all jobs, however long. -/
def work (jobs : List Job) : Nat := (jobs.map (·.burst)).sum

/-- The last arrival plus all work, however long. -/
def span (s : Scenario) : Nat := lastArrival s.jobs + work s.jobs

theorem le_foldl_max_arrival (jobs : List Job) (latest : Nat) :
    latest ≤ jobs.foldl (fun latest j => max latest j.arrival) latest ∧
      ∀ job ∈ jobs, job.arrival ≤ jobs.foldl (fun latest j => max latest j.arrival) latest := by
  induction jobs generalizing latest with
  | nil => exact ⟨Nat.le_refl _, nofun⟩
  | cons j jobs ih =>
    obtain ⟨kept, rest⟩ := ih (max latest j.arrival)
    rw [List.foldl_cons]
    refine ⟨Nat.le_trans (Nat.le_max_left _ _) kept, List.forall_mem_cons.2 ⟨?_, rest⟩⟩
    exact Nat.le_trans (Nat.le_max_right _ _) kept

theorem arrival_le_lastArrival {jobs : List Job} {job : Job} (member : job ∈ jobs) :
    job.arrival ≤ lastArrival jobs := (le_foldl_max_arrival jobs 0).2 job member

theorem foldl_addTicks_burst (jobs : List Job) {total : Nat} (inside : total ≤ lastTick) :
    jobs.foldl (fun total j => addTicks total j.burst) total =
      addTicks total (work jobs) := by
  induction jobs generalizing total with
  | nil => exact (Nat.min_eq_left inside).symm
  | cons j jobs ih =>
    have capped : addTicks total j.burst ≤ lastTick := Nat.min_le_right _ _
    rw [List.foldl_cons, ih capped]
    simp only [addTicks, work, List.map_cons, List.sum_cons]
    omega

theorem horizon_eq (s : Scenario) : s.horizon = min s.span lastTick := by
  rw [horizon, totalBurst, foldl_addTicks_burst s.jobs (Nat.zero_le _), span]
  simp only [addTicks]
  omega

theorem horizon_le_bound {s : Scenario} (unlimited : s.limit = none) : s.horizon ≤ s.bound := by
  have inside : s.horizon ≤ lastTick := Nat.min_le_right _ _
  rw [bound, unlimited, Option.getD_none]
  simp only [mulTicks, patience]
  omega

theorem bound_le {s : Scenario} (clock : ∀ limit, s.limit = some limit → limit ≤ lastTick) :
    s.bound ≤ lastTick := by
  unfold bound
  cases limited : s.limit with
  | none => exact Nat.min_le_right _ _
  | some limit => exact clock limit limited

end Scenario

namespace Machine
variable {m : Machine}

/-- A run stops after as many whole ticks as it may take, or earlier at the first machine that has
finished. -/
theorem runAtMost_eq (n : Nat) (m : Machine) :
    ∃ k ≤ n, m.runAtMost n = m.steps k ∧ (∀ i < k, (m.steps i).allFinished = false) ∧
      (k = n ∨ (m.steps k).allFinished = true) := by
  induction n generalizing m with
  | zero => exact ⟨0, Nat.le_refl 0, rfl, fun i early => absurd early (Nat.not_lt_zero i), .inl rfl⟩
  | succ n ih =>
    unfold runAtMost
    split
    next done =>
      exact ⟨0, Nat.zero_le _, rfl, fun i early => absurd early (Nat.not_lt_zero i), .inr done⟩
    next going =>
      obtain ⟨k, bound, run, busy, stop⟩ := ih m.step
      refine ⟨k + 1, Nat.succ_le_succ bound, run, ?_, stop.imp_left (congrArg (· + 1))⟩
      intro i early
      cases i with
      | zero => exact Bool.eq_false_iff.2 going
      | succ i => exact busy i (Nat.lt_of_succ_lt_succ early)

/-- Of two runs that are done in the same ticks, each stopping when done or at its bound, the one
with the smaller bound stops there, unless it stops with the other. -/
theorem stop_eq_min {done : Nat → Bool} {bound bound' k k' : Nat} (tighter : bound ≤ bound')
    (upto : k ≤ bound) (busy : ∀ i < k, done i = false) (busy' : ∀ i < k', done i = false)
    (stop : k = bound ∨ done k = true) (stop' : k' = bound' ∨ done k' = true) :
    k = min bound k' := by
  rcases Nat.lt_trichotomy k k' with early | rfl | late
  · have cut : k = bound := stop.resolve_right (by simp [busy' k early])
    omega
  · omega
  · have cut : k' = bound' := stop'.resolve_right (by simp [busy k' late])
    omega

/-- Whoever has a finish has completed, and its account was balanced then. -/
theorem Balanced.finish_eq (balanced : m.Balanced) {p : ProcessRecord} (member : p ∈ m.procs)
    {e : Nat} (finish : p.finish = some e) : e = p.arrival + p.burst + p.waited ∧ e ≤ m.now := by
  have account := balanced _ (List.mem_map_of_mem member)
  cases done : p.isCompleted with
  | false =>
    have no_finish : p.finish = none := (account.unfinished done).2.1
    rw [finish] at no_finish
    cases no_finish
  | true =>
    obtain ⟨-, e', past, finish', whole⟩ := account.finished done
    cases finish.symm.trans finish'
    exact ⟨whole, past⟩

/-- A run that stops at the first machine that has finished has taken as long as its last
process. -/
theorem AtRest.now_eq_max?_finish (h : AtRest m) (balanced : m.Balanced) (start : m.now = 0)
    (waiting : ∀ p ∈ m.procs, p.status = .waiting) {k : Nat}
    (busy : ∀ i < k, (m.steps i).allFinished = false) (done : (m.steps k).allFinished = true) :
    (m.steps k).now = ((m.steps k).procs.filterMap (·.finish)).max?.getD 0 := by
  cases k with
  | zero =>
    -- finished before the first tick, so without any process
    have none_left : m.procs = [] := by
      refine List.eq_nil_iff_forall_not_mem.2 fun p member => ?_
      have finished := h.allFinished_iff.1 done p member
      rw [waiting p member] at finished
      cases finished
    show m.now = (m.procs.filterMap (·.finish)).max?.getD 0
    rw [none_left, start]
    rfl
  | succ k =>
    have unfinished := busy k k.lt_succ_self
    have balanced' := balanced.steps h (k + 1)
    rw [steps_succ] at done balanced' ⊢
    obtain ⟨p, member, finish⟩ := (h.steps k).exists_finish unfinished done
    have latest : ((m.steps k).step.procs.filterMap (·.finish)).max? =
        some (m.steps k).step.now := by
      refine List.max?_eq_some_iff.2 ⟨List.mem_filterMap.2 ⟨p, member, finish⟩, fun e member' => ?_⟩
      obtain ⟨q, in_table, finish'⟩ := List.mem_filterMap.1 member'
      exact (balanced'.finish_eq in_table finish').2
    rw [latest]
    rfl

/-- While a run that is diligent throughout is unfinished, it has not taken as long as the last
arrival and all work together. -/
theorem AtRest.lt_of_diligent (h : AtRest m) (balanced : m.Balanced) (cpus : 0 < m.cpus.size)
    (start : m.now = 0) {latest n : Nat} (arrivals : ∀ job ∈ m.jobs, job.arrival ≤ latest)
    (diligent : ∀ i < n, (m.steps i).Diligent) (unfinished : (m.steps n).allFinished = false) :
    n < latest + m.workLeft := by
  obtain ⟨p, member, going⟩ := (h.steps n).exists_unfinished unfinished
  obtain ⟨slot, found⟩ := List.mem_iff_getElem?.1 member
  have arrival : p.arrival ≤ latest := arrivals _ (h.toJob_mem_jobs member)
  have less : n < p.arrival + m.workLeft :=
    h.unfinished_lt balanced cpus start
      (fun i early => ⟨[], List.not_mem_nil, (diligent i early).but []⟩) found going
  exact Nat.lt_of_lt_of_le less (Nat.add_le_add_right arrival _)

/-- A run that is diligent throughout takes no longer than the last arrival and all work
together, and has finished when it takes as long. -/
theorem AtRest.finishes (h : AtRest m) (balanced : m.Balanced) (l : Ledger {} m)
    (cpus : 0 < m.cpus.size) (start : m.now = 0) {latest : Nat}
    (arrivals : ∀ job ∈ m.jobs, job.arrival ≤ latest) {k : Nat}
    (busy : ∀ i < k, (m.steps i).allFinished = false) (undropped : (m.steps k).dropped = 0) :
    k ≤ latest + m.workLeft ∧ (latest + m.workLeft ≤ k → (m.steps k).allFinished = true) := by
  have diligent : ∀ i < k, (m.steps i).Diligent := fun i early => h.diligent_steps l early undropped
  constructor
  · cases k with
    | zero => exact Nat.zero_le _
    | succ k =>
      exact h.lt_of_diligent balanced cpus start arrivals
        (fun i early => diligent i (Nat.lt_succ_of_lt early)) (busy k k.lt_succ_self)
  · intro long
    by_contra going
    refine Nat.not_lt_of_le long (h.lt_of_diligent balanced cpus start arrivals diligent ?_)
    exact Bool.eq_false_iff.2 going

/-! The machine with which a simulation begins. -/

theorem AtRest.say (h : AtRest m) (n : Log.Notice) : AtRest (m.say n) :=
  ⟨h.congr rfl rfl rfl rfl rfl, h.untouched⟩

theorem Ledger.say {log : TurnLog} (l : Ledger log m) (n : Log.Notice) : Ledger log (m.say n) :=
  ⟨l.fifo, l.ready_iff, l.refused_unqueued, l.refused_nodup, l.dropped_eq, l.enrolled, l.recorded⟩

def begun (d : Discipline) (s : Scenario) : Machine :=
  (boot s d.policy).say (.runStarted d.algorithm s.cpus s.jobs.length)

section Begun
variable (d : Discipline) (s : Scenario)

theorem atRest_begun : AtRest (begun d s) := by
  rw [begun, Discipline.policy, ← Policy.fresh_default]
  exact (atRest_boot s _ _ _).say _

theorem ledger_begun : Ledger {} (begun d s) := by
  rw [begun, Discipline.policy, ← Policy.fresh_default]
  exact (ledger_boot s _ _ _).say _

theorem balanced_begun (bursts : ∀ job ∈ s.jobs, 0 < job.burst) : (begun d s).Balanced :=
  balanced_boot s bursts d.policy

theorem jobs_begun : (begun d s).jobs = s.jobs := jobs_boot s d.policy

/-- No process is refused if the queue has a place for each. -/
theorem refused_begun (room : s.jobs.length ≤ defaultQueueCapacity) (n : Nat) :
    ((begun d s).turnLog n).refused = [] := by
  by_cases turns : d.algorithm = .roundRobin
  · have policy : (begun d s).policy = .roundRobin d.quantum (.empty defaultQueueCapacity) := by
      show d.policy = _
      rw [Discipline.policy, turns, Policy.start]
    refine (ledger_begun d s).refused_turnLog (atRest_begun d s) policy ?_ n
    exact (ProcessTable.length_ofJobs s.jobs).trans_le room
  · refine (atRest_begun d s).refused_turnLog ?_ n
    show (Policy.start d.quantum d.algorithm).algorithm ≠ .roundRobin
    rwa [Policy.algorithm_start]

theorem size_cpus_begun : (begun d s).cpus.size = s.cpus := Array.size_replicate

theorem waiting_begun : ∀ p ∈ (begun d s).procs, p.status = .waiting := by
  intro p member
  obtain ⟨job, -, rfl⟩ := List.mem_map.1 member
  rfl

theorem workLeft_begun : (begun d s).workLeft = Scenario.work s.jobs := by
  show ((s.jobs.map Job.toRecord).map (·.remaining)).sum = _
  rw [List.map_map]
  rfl

theorem simulate_eq : ∃ k ≤ s.bound,
    simulate d s =
      ⟨d, ((begun d s).steps k).conclude s.bound, ((begun d s).steps k).ending s.bound⟩ ∧
    (∀ i < k, ((begun d s).steps i).allFinished = false) ∧
    (k = s.bound ∨ ((begun d s).steps k).allFinished = true) := by
  obtain ⟨k, upto, run, busy, stop⟩ := (begun d s).runAtMost_eq s.bound
  refine ⟨k, upto, ?_, busy, stop⟩
  rw [← run]
  rfl

theorem length_procs_simulate : (simulate d s).machine.procs.length = s.jobs.length := by
  obtain ⟨k, -, outcome, -⟩ := simulate_eq d s
  rw [outcome]
  exact ((atRest_begun d s).length_procs_steps k).trans (ProcessTable.length_ofJobs s.jobs)

end Begun

/-- A simulation that may take as long as its horizon, and whose queue refuses nobody, finishes. -/
theorem allFinished_begun {d : Discipline} {s : Scenario} (bursts : ∀ job ∈ s.jobs, 0 < job.burst)
    (long : s.span ≤ s.bound) {k : Nat}
    (busy : ∀ i < k, ((begun d s).steps i).allFinished = false)
    (stop : k = s.bound ∨ ((begun d s).steps k).allFinished = true)
    (undropped : ((begun d s).steps k).dropped = 0) :
    ((begun d s).steps k).allFinished = true := by
  have arrivals : ∀ job ∈ (begun d s).jobs, job.arrival ≤ Scenario.lastArrival s.jobs := by
    rw [jobs_begun]
    exact fun job => Scenario.arrival_le_lastArrival
  have cpus : 0 < (begun d s).cpus.size := size_cpus_begun d s ▸ s.cpus_pos
  have within := (atRest_begun d s).finishes (balanced_begun d s bursts) (ledger_begun d s) cpus rfl
    arrivals busy undropped
  rw [workLeft_begun] at within
  rcases stop with reached | done
  · exact within.2 (reached ▸ long)
  · exact done

theorem ending_eq_completed_iff {limit : Nat} :
    m.ending limit = .completed ↔ m.allFinished = true := by
  unfold ending
  split
  next done => exact iff_of_true rfl done
  next going => exact iff_of_false nofun going

/-- A run whose bound reaches the last arrival and all work together, which a scenario without a
bound of its own sees to, finishes every process unless the queue refuses one, and takes as long as
its last process. Whatever the bound, a run is completed just if all its processes are; any other
run takes all of its bound. -/
theorem completion_within_horizon (d : Discipline) (s : Scenario)
    (bursts : ∀ job ∈ s.jobs, 0 < job.burst) :
    let o := simulate d s
    o.machine.jobs = s.jobs ∧
      (s.span < 2 ^ 64 → s.horizon = s.span ∧ (s.limit = none → s.span ≤ s.bound)) ∧
      (s.span ≤ s.bound → o.machine.dropped = 0 →
        o.ending = .completed ∧
        (∀ p ∈ o.machine.procs, p.status = .completed ∧ p.remaining = 0) ∧
        o.totalTicks = (o.machine.procs.filterMap (·.finish)).max?.getD 0 ∧
        o.totalTicks ≤ s.span) ∧
      (o.ending = .completed ↔ ∀ p ∈ o.machine.procs, p.status = .completed) ∧
      (o.ending ≠ .completed → o.ending = .cutOff s.bound ∧ o.totalTicks = s.bound) := by
  obtain ⟨k, upto, outcome, busy, stop⟩ := simulate_eq d s
  have rest := atRest_begun d s
  have balanced := balanced_begun d s bursts
  have cpus : 0 < (begun d s).cpus.size := size_cpus_begun d s ▸ s.cpus_pos
  have arrivals : ∀ job ∈ (begun d s).jobs, job.arrival ≤ Scenario.lastArrival s.jobs := by
    rw [jobs_begun]
    exact fun job => Scenario.arrival_le_lastArrival
  rw [outcome]
  intro o
  have ticks : o.totalTicks = k := (rest.now_steps k).trans (Nat.zero_add k)
  have finished_iff : o.ending = .completed ↔ ∀ p ∈ o.machine.procs, p.status = .completed :=
    ending_eq_completed_iff.trans (rest.steps k).allFinished_iff
  refine ⟨(rest.jobs_steps k).trans (jobs_begun d s), fun clock => ?_, fun long undropped => ?_,
    finished_iff, fun unfinished => ?_⟩
  · have exact_horizon : s.horizon = s.span := by
      rw [s.horizon_eq, lastTick]
      omega
    exact ⟨exact_horizon, fun unlimited => exact_horizon ▸ Scenario.horizon_le_bound unlimited⟩
  · have within := rest.finishes balanced (ledger_begun d s) cpus rfl arrivals busy undropped
    rw [workLeft_begun] at within
    have done : ((begun d s).steps k).allFinished = true := by
      rcases stop with reached | done
      · exact within.2 (reached ▸ long)
      · exact done
    have all := (rest.steps k).allFinished_iff.1 done
    refine ⟨finished_iff.2 all, fun p member => ⟨all p member, ?_⟩, ?_, ticks ▸ within.1⟩
    · have account := balanced.steps rest k _ (List.mem_map_of_mem member)
      exact (account.finished (decide_eq_true (all p member))).1
    · exact rest.now_eq_max?_finish balanced rfl (waiting_begun d s) busy done
  · have going : ¬ ((begun d s).steps k).allFinished = true :=
      fun done => unfinished (ending_eq_completed_iff.2 done)
    exact ⟨if_neg going, ticks.trans (stop.resolve_right going)⟩

/-- An eviction costs no tick: the run ends one tick before the last arrival and all work. -/
theorem completion_within_horizon_evicted :
    let o := simulate ⟨.srtf, 2⟩ shorterArrival
    (∀ job ∈ shorterArrival.jobs, 0 < job.burst) ∧ shorterArrival.span = 5 ∧
      o.machine.dropped = 0 ∧ o.ending = .completed ∧
      (∀ p ∈ o.machine.procs, p.status = .completed ∧ p.remaining = 0) ∧
      (o.machine.procs.filterMap (·.finish)).max?.getD 0 = 4 ∧ o.totalTicks = 4 := by
  intro o
  have bursts : ∀ job ∈ shorterArrival.jobs, 0 < job.burst := by decide
  have long : shorterArrival.span ≤ shorterArrival.bound := by decide
  have undropped : o.machine.dropped = 0 := by decide +kernel
  have last : (o.machine.procs.filterMap (·.finish)).max?.getD 0 = 4 := by decide +kernel
  obtain ⟨-, -, finishes, -⟩ := completion_within_horizon ⟨.srtf, 2⟩ shorterArrival bursts
  obtain ⟨completed, all, ticks, -⟩ := finishes long undropped
  exact ⟨bursts, by decide, undropped, completed, all, last, ticks.trans last⟩

/-- A bound that is just long enough does not cut a run off. -/
example : (simulate ⟨.srtf, 2⟩ { shorterArrival with limit := some 4 }).ending =
    .completed := by decide +kernel

example : (simulate ⟨.srtf, 2⟩ { shorterArrival with limit := some 3 }).ending =
    .cutOff 3 := by decide +kernel

end Machine
end CpuScheduling
