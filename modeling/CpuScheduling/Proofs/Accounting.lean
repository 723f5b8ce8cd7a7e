import CpuScheduling.Proofs.Runs
/-!
Time accounting. The waiting that is counted tick by tick and the work that is done add up, for
every process that has arrived, to the time since its arrival; after its finish, to its turnaround.
-/
namespace CpuScheduling

/-- An account in balance at a tick; one that has not arrived has neither waited nor worked. -/
structure Account.Balanced (now : Nat) (a : Account) : Prop where
  remaining_le : a.remaining ≤ a.job.burst
  unfinished : a.completed = false → 0 < a.remaining ∧ a.finish = none ∧
    a.waited + (a.job.burst - a.remaining) = now - a.job.arrival
  finished : a.completed = true → a.remaining = 0 ∧
    ∃ e ≤ now, a.finish = some e ∧ e = a.job.arrival + a.job.burst + a.waited

namespace ProcessRecord

/-- The tick up to which a process is accounted for: its finish, or the present. -/
def accountedUntil (now : Nat) (p : ProcessRecord) : Option Nat :=
  if p.isCompleted then p.finish else some now

variable {now : Nat} {p : ProcessRecord}

theorem balanced_work (h : p.account.Balanced now) (running : p.isRunning = true)
    (arrived : p.arrival ≤ now) : (p.work now).account.Balanced (now + 1) := by
  obtain ⟨cpu, at_cpu⟩ := isRunning_iff.1 running
  have going : p.isCompleted = false := by simp [isCompleted, at_cpu]
  obtain ⟨work_left, no_finish, balance⟩ := h.unfinished going
  have bound : p.remaining ≤ p.burst := h.remaining_le
  change 0 < p.remaining at work_left
  change p.finish = none at no_finish
  change p.waited + (p.burst - p.remaining) = now - p.arrival at balance
  -- the last unit of work fixes the finish at the end of this tick
  by_cases last : p.remaining = 1
  · have worked : (p.work now).account = ⟨p.toJob, 0, p.waited, some (now + 1), true⟩ := by
      simp [work, account, last, isCompleted]
    rw [worked]
    refine ⟨Nat.zero_le _, fun going => ?_, fun _ => ⟨rfl, now + 1, Nat.le_refl _, rfl, ?_⟩⟩
    · cases going
    · dsimp only
      omega
  · have more : p.remaining - 1 ≠ 0 := by omega
    have worked : (p.work now).account = ⟨p.toJob, p.remaining - 1, p.waited, none, false⟩ := by
      simp [work, account, more, no_finish, isCompleted, at_cpu]
    rw [worked]
    refine ⟨?_, fun _ => ⟨?_, rfl, ?_⟩, fun done => ?_⟩
    case refine_4 => cases done
    all_goals dsimp only; omega

theorem balanced_ageWaiting (h : p.account.Balanced now) (off : p.isRunning = false) :
    (p.ageWaiting now).account.Balanced (now + 1) := by
  by_cases done : p.isCompleted = true
  · obtain ⟨none_left, e, past, finish, whole⟩ := h.finished done
    have same : p.ageWaiting now = p := by simp [ageWaiting, done]
    rw [same]
    exact ⟨h.remaining_le, fun going => absurd done (Bool.eq_false_iff.1 going),
      fun _ => ⟨none_left, e, Nat.le_succ_of_le past, finish, whole⟩⟩
  · have going : p.isCompleted = false := Bool.eq_false_iff.2 done
    obtain ⟨work_left, no_finish, balance⟩ := h.unfinished going
    change p.waited + (p.burst - p.remaining) = now - p.arrival at balance
    by_cases arrived : p.arrival ≤ now
    · have aged : p.ageWaiting now = { p with waited := p.waited + 1 } := by
        simp [ageWaiting, arrivedBy, arrived, going, off]
      rw [aged]
      refine ⟨h.remaining_le, fun _ => ⟨work_left, no_finish, ?_⟩, fun fin => absurd fin done⟩
      show p.waited + 1 + (p.burst - p.remaining) = now + 1 - p.arrival
      omega
    · have same : p.ageWaiting now = p := p.ageWaiting_of_later now (Nat.lt_of_not_le arrived)
      rw [same]
      refine ⟨h.remaining_le, fun _ => ⟨work_left, no_finish, ?_⟩, fun fin => absurd fin done⟩
      show p.waited + (p.burst - p.remaining) = now + 1 - p.arrival
      omega

/-- The rest of a tick keeps an account in balance: it works or it waits. -/
theorem balanced_pass (h : p.account.Balanced now)
    (arrived : p.isRunning = true → p.arrival ≤ now) :
    (p.pass now).account.Balanced (now + 1) := by
  unfold pass
  split
  next running => exact balanced_work h running (arrived running)
  next off => exact balanced_ageWaiting h (Bool.eq_false_iff.2 off)

end ProcessRecord

namespace Machine
variable {m : Machine}

/-- Every account of a machine is in balance. -/
def Balanced (m : Machine) : Prop := ∀ a ∈ m.accounts, a.Balanced m.now

theorem Balanced.step (h : AtRest m) (balanced : m.Balanced) : m.step.Balanced := by
  intro a member
  rw [accounts, h.procs_step, List.map_map] at member
  obtain ⟨p, at_work, rfl⟩ := List.mem_map.1 member
  rw [h.now_step]
  exact ProcessRecord.balanced_pass (balanced _ (h.account_mem at_work))
    (h.arrived_of_running at_work)

/-- A process that runs at the row of a tick has work left. -/
theorem AtRest.work_left_of_running (h : AtRest m) (balanced : m.Balanced) {p : ProcessRecord}
    (member : p ∈ m.occupied.procs) (running : p.isRunning = true) : 0 < p.remaining := by
  obtain ⟨cpu, at_cpu⟩ := ProcessRecord.isRunning_iff.1 running
  exact ((balanced _ (h.account_mem member)).unfinished (by simp [ProcessRecord.account,
    ProcessRecord.isCompleted, at_cpu])).1

theorem Balanced.steps (h : AtRest m) (balanced : m.Balanced) (n : Nat) : (m.steps n).Balanced := by
  induction n with
  | zero => exact balanced
  | succ n ih => rw [steps_succ]; exact ih.step (h.steps n)

theorem balanced_boot (s : Scenario) (bursts : ∀ job ∈ s.jobs, 0 < job.burst) (policy : Policy) :
    (boot s policy).Balanced := by
  intro a member
  obtain ⟨p, in_table, rfl⟩ := List.mem_map.1 member
  obtain ⟨job, in_jobs, rfl⟩ := List.mem_map.1 in_table
  refine ⟨Nat.le_refl _, fun _ => ⟨bursts job in_jobs, rfl, ?_⟩, nofun⟩
  show 0 + (job.burst - job.burst) = 0 - job.arrival
  omega

/-- After any number of ticks, waiting and work add up to the time since arrival, up to the finish
of a finished process; what has not arrived has neither waited nor worked. A finished process has
waited, as counted, exactly its turnaround less its burst. -/
theorem time_accounting (s : Scenario) (bursts : ∀ job ∈ s.jobs, 0 < job.burst)
    (algorithm : Algorithm) (quantum capacity n : Nat) :
    let m := (boot s (.fresh algorithm quantum capacity)).steps n
    m.now = n ∧ m.jobs = s.jobs ∧
    ∀ p ∈ m.procs,
      (p.arrival ≤ m.now → ∃ e, p.accountedUntil m.now = some e ∧ p.arrival ≤ e ∧
        p.remaining ≤ p.burst ∧ p.waited + (p.burst - p.remaining) = e - p.arrival) ∧
      (m.now < p.arrival → p.waited = 0 ∧ p.remaining = p.burst) ∧
      (p.status = .completed →
        p.finish = some (p.arrival + p.burst + p.waited) ∧
        p.turnaround = some (p.burst + p.waited) ∧
        p.netWaiting = some p.waited) := by
  intro m
  have rest := atRest_boot s algorithm quantum capacity
  have balanced : m.Balanced := (balanced_boot s bursts _).steps rest n
  refine ⟨(rest.now_steps n).trans (Nat.zero_add n), (rest.jobs_steps n).trans (jobs_boot s _),
    fun p member => ?_⟩
  have h : p.account.Balanced m.now := balanced _ (List.mem_map_of_mem member)
  have bound : p.remaining ≤ p.burst := h.remaining_le
  refine ⟨fun arrived => ?_, fun late => ?_, fun done => ?_⟩
  · unfold ProcessRecord.accountedUntil
    by_cases done : p.isCompleted = true
    · obtain ⟨none_left, e, -, finish, whole⟩ := h.finished done
      change p.remaining = 0 at none_left
      change e = p.arrival + p.burst + p.waited at whole
      refine ⟨e, by rw [if_pos done]; exact finish, ?_, bound, ?_⟩ <;> omega
    · obtain ⟨-, -, balance⟩ := h.unfinished (Bool.eq_false_iff.2 done)
      exact ⟨m.now, if_neg done, arrived, bound, balance⟩
  · have fresh := ((rest.steps n).unarrived p member late)
    rw [fresh]
    exact ⟨rfl, rfl⟩
  · have done : p.isCompleted = true := decide_eq_true done
    obtain ⟨-, e, -, finish, whole⟩ := h.finished done
    change p.finish = some e at finish
    change e = p.arrival + p.burst + p.waited at whole
    have turnaround : p.turnaround = some (p.burst + p.waited) := by
      rw [ProcessRecord.turnaround, finish, Option.map_some, whole]
      congr 1
      omega
    refine ⟨by rw [finish, whole], turnaround, ?_⟩
    rw [ProcessRecord.netWaiting, turnaround, Option.map_some, Nat.add_sub_cancel_left]

/-- A process that was evicted for one tick has waited one tick. -/
theorem time_accounting_evicted :
    (∀ job ∈ shorterArrival.jobs, 0 < job.burst) ∧
    ∃ p ∈ ((boot shorterArrival (.fresh .srtf 2 500)).steps 4).procs,
      p.status = .completed ∧ p.finish = some 4 ∧ p.waited = 1 ∧ p.netWaiting = some p.waited := by
  have bursts : ∀ job ∈ shorterArrival.jobs, 0 < job.burst := by decide
  obtain ⟨p, member, done, finish, waited⟩ :
      ∃ p ∈ ((boot shorterArrival (.fresh .srtf 2 500)).steps 4).procs,
        p.status = .completed ∧ p.finish = some 4 ∧ p.waited = 1 := by decide +kernel
  obtain ⟨-, -, law⟩ := time_accounting shorterArrival bursts .srtf 2 500 4
  obtain ⟨-, -, net⟩ := (law p member).2.2 done
  exact ⟨bursts, p, member, done, finish, waited, net⟩

end Machine
end CpuScheduling
