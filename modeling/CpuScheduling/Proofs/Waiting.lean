import CpuScheduling.Proofs.Execution
/-!
Bounded waiting. In a tick in which a process waits that the queue has not refused, every processor
runs another process. So the work of the others pays for its waiting, whatever the policy.
-/
namespace CpuScheduling

/-- A tick adds to the waiting of a process only if it could have run and did not. -/
theorem ProcessRecord.waited_pass (p : ProcessRecord) (now : Nat) :
    (p.pass now).waited = p.waited ∨ (p.pass now).waited = p.waited + 1 ∧
      p.arrival ≤ now ∧ p.isCompleted = false ∧ p.isRunning = false := by
  cases running : p.isRunning with
  | true =>
    left
    rw [pass, if_pos running, work]
    dsimp only
    split <;> rfl
  | false =>
    rw [pass, if_neg (Bool.eq_false_iff.1 running), ageWaiting]
    split
    next idle =>
      simp only [arrivedBy, Bool.and_eq_true, decide_eq_true_eq, Bool.not_eq_true'] at idle
      exact .inr ⟨rfl, idle.1.1, idle.1.2, rfl⟩
    next => exact .inl rfl

namespace Machine
variable {m : Machine} {slot : Nat} {p : ProcessRecord}

/-- The work that the processes in all other slots still need. -/
def leftToOthers (m : Machine) (slot : Nat) : Nat :=
  ((m.procs.eraseIdx slot).map (·.remaining)).sum

theorem leftToOthers_add (found : m.procs[slot]? = some p) :
    p.remaining + m.leftToOthers slot = m.workLeft := by
  obtain ⟨inside, rfl⟩ := List.getElem?_eq_some_iff.1 found
  have inside' : slot < (m.procs.map (·.remaining)).length := by rwa [List.length_map]
  have whole := List.CommMonoid.add_sum_eraseIdx inside'
  rwa [List.getElem_map, List.eraseIdx_map] at whole

theorem Balanced.sum_workDone_others (balanced : m.Balanced) (slot : Nat) :
    ((m.procs.eraseIdx slot).map (·.workDone)).sum + m.leftToOthers slot =
      Scenario.work (m.jobs.eraseIdx slot) := by
  rw [jobs, List.eraseIdx_map]
  exact balanced.sum_workDone_add fun _ => List.mem_of_mem_eraseIdx

/-! One tick. -/

theorem AtRest.leftToOthers_occupied (rest : AtRest m) (slot : Nat) :
    m.occupied.leftToOthers slot = m.leftToOthers slot := by
  have of_accounts : ∀ x : Machine, x.leftToOthers slot =
      ((x.accounts.eraseIdx slot).map (·.remaining)).sum := fun x => by
    rw [accounts, List.eraseIdx_map, List.map_map]
    rfl
  rw [of_accounts, of_accounts, rest.accounts_occupied]

theorem AtRest.leftToOthers_step_le (rest : AtRest m) (slot : Nat) :
    m.step.leftToOthers slot ≤ m.leftToOthers slot := by
  rw [← rest.leftToOthers_occupied, leftToOthers, rest.procs_step, List.eraseIdx_map,
    List.map_map]
  exact List.sum_le_sum fun p _ => p.remaining_pass_le m.now

section Run
variable (rest : AtRest m) (l : Ledger {} m) (balanced : m.Balanced) (t : Nat)
include rest l

/-- While a process could use a processor and has none, every processor is busy. -/
theorem AtRest.all_busy {slot : Nat} (could : m.isEligible t slot = true)
    (off : (m.steps t).occupied.isRunningAt slot = false) :
    (m.steps t).occupied.heldSlots.length = m.cpus.size := by
  have busy : ∀ cpu, (m.steps t).occupied.isIdleAt cpu = false := by
    refine fun cpu => Bool.eq_false_iff.2 fun idle => ?_
    rw [rest.running_of_eligible l t idle could] at off
    cases off
  rw [length_heldSlots_of_busy busy, (rest.steps t).size_cpus_occupied, rest.size_cpus_steps]

include balanced

/-- A tick of waiting is a tick of work for as many other processes as there are processors. -/
theorem AtRest.waited_step {p q : ProcessRecord} (kept : slot ∉ (m.turnLog (t + 1)).refused)
    (before : (m.steps t).procs[slot]? = some p)
    (after : (m.steps (t + 1)).procs[slot]? = some q) :
    q.waited = p.waited ∨ q.waited = p.waited + 1 ∧
      (m.steps (t + 1)).leftToOthers slot + m.cpus.size = (m.steps t).leftToOthers slot := by
  have rest' := rest.steps t
  rw [steps_succ] at after ⊢
  have passed := after
  rw [rest'.procs_step, List.getElem?_map] at passed
  obtain ⟨r, shown, rfl⟩ := Option.map_eq_some_iff.1 passed
  obtain ⟨p', before', same⟩ := exists_account_eq rest'.accounts_occupied shown
  obtain rfl : p = p' := Option.some.inj (before.symm.trans before')
  have waited : p.waited = r.waited := congrArg (·.waited) same
  rcases r.waited_pass (m.steps t).now with kept_on | ⟨more, arrived, going, off⟩
  · exact .inl (kept_on.trans waited.symm)
  · have could : m.isEligible t slot = true := by
      have arrival : p.arrival = r.arrival := congrArg (·.job.arrival) same
      have going' : p.isCompleted = false := (congrArg (·.completed) same).trans going
      rw [rest.now_steps, ← arrival] at arrived
      exact isEligible_iff.2 ⟨kept, p, before, arrived, of_decide_eq_false going'⟩
    have off' : (m.steps t).occupied.isRunningAt slot = false := by
      rw [isRunningAt, shown]
      exact off
    have left : (r.pass (m.steps t).now).remaining = p.remaining :=
      (ProcessRecord.remaining_pass_of_off _ off).trans (congrArg (·.remaining) same).symm
    have taken := rest'.workLeft_step_add (balanced.steps rest t)
    rw [rest.all_busy l t could off', ← leftToOthers_add before, ← leftToOthers_add after,
      left] at taken
    exact .inr ⟨more.trans (congrArg (· + 1) waited.symm), by omega⟩

/-- The others have done as many ticks of work for each tick that a process has waited as there are
processors. -/
theorem AtRest.size_mul_waited_le {p₀ q : ProcessRecord} (first : m.procs[slot]? = some p₀)
    (fresh : p₀.waited = 0) (n : Nat) (kept : slot ∉ (m.turnLog n).refused)
    (after : (m.steps n).procs[slot]? = some q) :
    m.cpus.size * q.waited + (m.steps n).leftToOthers slot ≤ m.leftToOthers slot := by
  induction n generalizing q with
  | zero =>
    obtain rfl : p₀ = q := Option.some.inj (first.symm.trans after)
    rw [fresh, Nat.mul_zero, Nat.zero_add]
    exact Nat.le_refl _
  | succ n ih =>
    have kept' : slot ∉ (m.turnLog n).refused := fun lost => kept (List.mem_append_left _ lost)
    obtain ⟨p, before, -⟩ := rest.exists_record after n
    have so_far := ih kept' before
    rcases rest.waited_step l balanced n kept before after with same | ⟨more, others⟩
    · have less := (rest.steps n).leftToOthers_step_le slot
      rw [← steps_succ] at less
      rw [same]
      exact (Nat.add_le_add_left less _).trans so_far
    · rw [more, Nat.mul_succ]
      omega

end Run

/-- Every process that the queue has not refused has waited, times the number of processors, no
longer than the others have worked, and so no longer than all their bursts. -/
def WaitsForOthers (s : Scenario) (refused : List Nat) (m : Machine) : Prop :=
  ∀ slot p, m.procs[slot]? = some p → slot ∉ refused →
    s.cpus * p.waited ≤ ((m.procs.eraseIdx slot).map (·.workDone)).sum ∧
      s.cpus * p.waited ≤ Scenario.work (s.jobs.eraseIdx slot)

theorem AtRest.waitsForOthers (rest : AtRest m) (l : Ledger {} m) (balanced : m.Balanced)
    (fresh : ∀ p ∈ m.procs, p = p.toJob.toRecord) {s : Scenario} (size : m.cpus.size = s.cpus)
    (jobs : m.jobs = s.jobs) (n : Nat) : WaitsForOthers s (m.turnLog n).refused (m.steps n) := by
  intro slot q after kept
  obtain ⟨p, first, -⟩ := rest.exists_record after 0
  have unwaited : p.waited = 0 := by
    rw [fresh p (List.mem_of_getElem? first)]
    rfl
  have none_done : ((m.procs.eraseIdx slot).map (·.workDone)).sum = 0 :=
    sum_workDone_eq_zero fun p member => fresh p (List.mem_of_mem_eraseIdx member)
  have paid := rest.size_mul_waited_le l balanced first unwaited n kept after
  have at_first := balanced.sum_workDone_others slot
  have at_last := (balanced.steps rest n).sum_workDone_others slot
  rw [rest.jobs_steps] at at_last
  rw [← size, ← jobs]
  constructor <;> omega

/-- Waiting is bounded under every policy, after any number of ticks and in every simulation. -/
theorem bounded_waiting (s : Scenario) (bursts : ∀ job ∈ s.jobs, 0 < job.burst) :
    (∀ algorithm quantum capacity n, let start := boot s (.fresh algorithm quantum capacity)
      WaitsForOthers s (start.turnLog n).refused (start.steps n)) ∧
    ∀ d, let o := simulate d s
      WaitsForOthers s ((begun d s).turnLog o.totalTicks).refused o.machine := by
  constructor
  · intro algorithm quantum capacity n start
    exact (atRest_boot s algorithm quantum capacity).waitsForOthers
      (ledger_boot s algorithm quantum capacity) (balanced_boot s bursts _) (fresh_boot s _)
      Array.size_replicate (jobs_boot s _) n
  · intro d
    obtain ⟨k, -, outcome, -⟩ := simulate_eq d s
    have rest := atRest_begun d s
    have ticks : ((begun d s).steps k).now = k := (rest.now_steps k).trans (Nat.zero_add k)
    rw [outcome]
    show WaitsForOthers s ((begun d s).turnLog ((begun d s).steps k).now).refused _
    rw [ticks]
    exact rest.waitsForOthers (ledger_begun d s) (balanced_begun d s bursts)
      (fresh_boot s d.policy) (size_cpus_begun d s) (jobs_begun d s) k

/-- While a process waits one tick for its turn, two processors run two others. -/
theorem bounded_waiting_turns :
    let start := boot sharedPid (.fresh .roundRobin 1 500)
    (∀ job ∈ sharedPid.jobs, 0 < job.burst) ∧ 1 ∉ (start.turnLog 3).refused ∧
    ∃ p, (start.steps 3).procs[1]? = some p ∧ p.waited = 1 ∧
      2 * p.waited ≤ (((start.steps 3).procs.eraseIdx 1).map (·.workDone)).sum ∧
      (((start.steps 3).procs.eraseIdx 1).map (·.workDone)).sum = 3 := by
  intro start
  have bursts : ∀ job ∈ sharedPid.jobs, 0 < job.burst := by decide
  have kept : 1 ∉ (start.turnLog 3).refused := by decide +kernel
  obtain ⟨p, found, waited⟩ : ∃ p, (start.steps 3).procs[1]? = some p ∧ p.waited = 1 := by
    decide +kernel
  have bound := ((bounded_waiting sharedPid bursts).1 .roundRobin 1 500 3 1 p found kept).1
  exact ⟨bursts, kept, p, found, waited, bound, by decide +kernel⟩

end Machine
end CpuScheduling
