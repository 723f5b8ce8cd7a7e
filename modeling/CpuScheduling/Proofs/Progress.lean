import CpuScheduling.Proofs.Accounting
import CpuScheduling.Proofs.Diligence
import Mathlib.Algebra.Order.BigOperators.Group.List
import Mathlib.Algebra.Order.Ring.Nat
/-!
Progress. Once everything has arrived, a diligent tick does some work as long as a process is
unfinished, so the work that is left bounds the ticks to come.
-/
namespace CpuScheduling

namespace ProcessRecord
variable {now : Nat} {p : ProcessRecord}

theorem remaining_work (p : ProcessRecord) (now : Nat) :
    (p.work now).remaining = p.remaining - 1 := by
  unfold work
  dsimp only
  split <;> rfl

theorem remaining_pass_le (p : ProcessRecord) (now : Nat) :
    (p.pass now).remaining ≤ p.remaining := by
  unfold pass
  split
  · rw [remaining_work]
    exact Nat.sub_le _ _
  · unfold ageWaiting
    split <;> exact Nat.le_refl _

theorem remaining_pass_lt (running : p.isRunning = true) (work_left : 0 < p.remaining) :
    (p.pass now).remaining < p.remaining := by
  rw [pass, if_pos running, remaining_work]
  exact Nat.sub_lt work_left Nat.one_pos

/-- A tick takes one unit of work from a process that runs in it, and none from any other. -/
theorem remaining_pass_add (now : Nat) (work_left : p.isRunning = true → 0 < p.remaining) :
    (p.pass now).remaining + (if p.isRunning then 1 else 0) = p.remaining := by
  cases running : p.isRunning with
  | true =>
    rw [pass, if_pos running, remaining_work, if_pos rfl]
    exact Nat.sub_add_cancel (work_left running)
  | false => exact remaining_pass_of_off now running

/-- Only work finishes a process, and the finish is the end of the tick. -/
theorem finish_pass (going : p.isCompleted = false) (done : (p.pass now).isCompleted = true) :
    (p.pass now).finish = some (now + 1) := by
  unfold pass at done ⊢
  split at done
  next running =>
    rw [if_pos running]
    obtain ⟨cpu, at_cpu⟩ := isRunning_iff.1 running
    have last : p.remaining ≤ 1 := by
      by_contra more
      rw [isCompleted, p.status_work, if_neg more, at_cpu] at done
      cases done
    simp [work, Nat.sub_eq_zero_of_le last]
  next =>
    rw [isCompleted, status_ageWaiting] at done
    rw [isCompleted, done] at going
    cases going

end ProcessRecord

namespace Machine
variable {m : Machine}

theorem Consistent.allFinished_iff (h : Consistent m) :
    m.allFinished = true ↔ ∀ p ∈ m.procs, p.status = .completed := by
  have all : ProcessTable.countCompleted m.procs = m.procs.length ↔
      ∀ p ∈ m.procs, p.isCompleted = true := List.countP_eq_length
  have bound : ProcessTable.countCompleted m.procs ≤ m.procs.length := List.countP_le_length
  have whole : m.allFinished = true ↔ ProcessTable.countCompleted m.procs = m.procs.length := by
    rw [allFinished, decide_eq_true_iff, h.completed_eq]
    exact ⟨Nat.le_antisymm bound, fun same => Nat.le_of_eq same.symm⟩
  rw [whole, all]
  simp only [ProcessRecord.isCompleted, decide_eq_true_eq]

theorem Consistent.exists_unfinished (h : Consistent m) (unfinished : m.allFinished = false) :
    ∃ p ∈ m.procs, p.isCompleted = false := by
  by_contra none_left
  have all : m.allFinished = true := h.allFinished_iff.2 fun p member => by
    by_contra going
    exact none_left ⟨p, member, decide_eq_false going⟩
  rw [unfinished] at all
  cases all

/-- The work that all processes together still need. -/
def workLeft (m : Machine) : Nat := (m.procs.map (·.remaining)).sum

theorem workLeft_eq (m : Machine) : m.workLeft = (m.accounts.map (·.remaining)).sum := by
  rw [accounts, List.map_map]
  rfl

theorem AtRest.workLeft_occupied (h : AtRest m) : m.occupied.workLeft = m.workLeft := by
  rw [workLeft_eq, workLeft_eq, h.accounts_occupied]

theorem AtRest.workLeft_step (h : AtRest m) :
    m.step.workLeft = (m.occupied.procs.map fun p => (p.pass m.now).remaining).sum := by
  rw [workLeft, h.procs_step, List.map_map]
  rfl

theorem AtRest.workLeft_step_le (h : AtRest m) : m.step.workLeft ≤ m.workLeft := by
  rw [h.workLeft_step, ← h.workLeft_occupied]
  exact List.sum_le_sum fun p _ => p.remaining_pass_le m.now

theorem AtRest.mem_occupied (h : AtRest m) {p : ProcessRecord} (member : p ∈ m.procs) :
    ∃ q ∈ m.occupied.procs, q.account = p.account := by
  have in_accounts : p.account ∈ m.occupied.accounts := by
    rw [h.accounts_occupied]
    exact List.mem_map_of_mem member
  exact List.mem_map.1 in_accounts

theorem Balanced.work_left (balanced : m.Balanced) {p : ProcessRecord} (member : p ∈ m.procs)
    (going : p.isCompleted = false) : 0 < p.remaining :=
  ((balanced _ (List.mem_map_of_mem member)).unfinished going).1

theorem Balanced.completed_iff (balanced : m.Balanced) {p : ProcessRecord} (member : p ∈ m.procs) :
    p.status = .completed ↔ p.remaining = 0 := by
  constructor
  · intro done
    exact ((balanced _ (List.mem_map_of_mem member)).finished (decide_eq_true done)).1
  · intro none_left
    by_contra going
    exact Nat.ne_of_gt (balanced.work_left member (decide_eq_false going)) none_left

theorem Balanced.isSome_finish_iff (balanced : m.Balanced) {p : ProcessRecord}
    (member : p ∈ m.procs) : p.finish.isSome = true ↔ p.remaining = 0 := by
  have account := balanced _ (List.mem_map_of_mem member)
  rw [← balanced.completed_iff member]
  constructor
  · intro finished
    by_contra going
    have no_finish : p.finish = none := (account.unfinished (decide_eq_false going)).2.1
    rw [no_finish] at finished
    cases finished
  · intro done
    obtain ⟨-, e, -, finish, -⟩ := account.finished (decide_eq_true done)
    have finish' : p.finish = some e := finish
    rw [finish']
    rfl

/-- A tick runs some process while one is unfinished that has arrived and is not lost. -/
theorem AtRest.exists_running (h : AtRest m) {lost : List Nat} (diligent : m.DiligentBut lost)
    (cpus : 0 < m.cpus.size) {slot : Nat} (kept : slot ∉ lost) {p : ProcessRecord}
    (found : m.procs[slot]? = some p) (arrived : p.arrival ≤ m.now)
    (going : p.isCompleted = false) : ∃ q ∈ m.occupied.procs, q.isRunning = true := by
  cases holds : m.occupied.held 0 with
  | some slot =>
    obtain ⟨q, found, running⟩ := h.consistent_occupied.slot_lt_of_held holds
    exact ⟨q, List.mem_of_getElem? found, ProcessRecord.isRunning_iff.2 ⟨0, running⟩⟩
  | none =>
    -- the first processor is idle, so what has arrived and is not lost runs or has finished
    have idle : m.occupied.isIdleAt 0 = true :=
      isIdleAt_iff.2 ⟨h.size_cpus_occupied ▸ cpus, holds⟩
    obtain ⟨q, found', same⟩ := exists_account_eq h.accounts_occupied.symm found
    have arrival : q.arrival = p.arrival := congrArg (·.job.arrival) same
    have going' : q.isCompleted = false := (congrArg (·.completed) same).trans going
    obtain ⟨not_waiting, not_ready⟩ := diligent 0 idle slot kept q found' (arrival ▸ arrived)
    refine ⟨q, List.mem_of_getElem? found', ?_⟩
    cases stands : q.status with
    | waiting => exact absurd stands not_waiting
    | ready => exact absurd stands not_ready
    | running cpu => exact ProcessRecord.isRunning_iff.2 ⟨cpu, stands⟩
    | completed =>
      rw [ProcessRecord.isCompleted, stands] at going'
      cases going'

theorem AtRest.workLeft_step_lt (h : AtRest m) (balanced : m.Balanced) {q : ProcessRecord}
    (member : q ∈ m.occupied.procs) (running : q.isRunning = true) :
    m.step.workLeft < m.workLeft := by
  have work_left : 0 < q.remaining := h.work_left_of_running balanced member running
  rw [h.workLeft_step, ← h.workLeft_occupied]
  exact List.sum_lt_sum _ _ (fun p _ => p.remaining_pass_le m.now)
    ⟨q, member, ProcessRecord.remaining_pass_lt running work_left⟩

theorem AtRest.exists_finish (h : AtRest m) (unfinished : m.allFinished = false)
    (done : m.step.allFinished = true) : ∃ p ∈ m.step.procs, p.finish = some m.step.now := by
  obtain ⟨p, member, going⟩ := h.exists_unfinished unfinished
  obtain ⟨q, member', same⟩ := h.mem_occupied member
  have going' : q.isCompleted = false := (congrArg (·.completed) same).trans going
  have in_step : q.pass m.now ∈ m.step.procs := by
    rw [h.procs_step]
    exact List.mem_map_of_mem member'
  have completed : (q.pass m.now).isCompleted = true :=
    decide_eq_true (h.step.allFinished_iff.1 done _ in_step)
  refine ⟨_, in_step, ?_⟩
  rw [ProcessRecord.finish_pass going' completed, h.now_step]

/-! Runs. -/
section Run
variable (h : AtRest m) (balanced : m.Balanced) (cpus : 0 < m.cpus.size) (start : m.now = 0)
  {slot n : Nat} {p : ProcessRecord}
include h balanced cpus start

/-- While a process is unfinished that is never lost, every tick after its arrival takes from the
work that is left. -/
theorem AtRest.workLeft_steps
    (diligent : ∀ i < n, ∃ lost, slot ∉ lost ∧ (m.steps i).DiligentBut lost)
    (found : (m.steps n).procs[slot]? = some p) (going : p.isCompleted = false) :
    (m.steps n).workLeft + (n - p.arrival) ≤ m.workLeft := by
  induction n generalizing p with
  | zero => rw [Nat.zero_sub]; exact Nat.le_refl _
  | succ n ih =>
    have rest := h.steps n
    obtain ⟨q, found', same⟩ := h.exists_record found n
    have arrival : q.arrival = p.arrival := congrArg (·.arrival) same
    rw [steps_succ] at found ⊢
    have going' : q.isCompleted = false := by
      refine Bool.eq_false_iff.2 fun done => ?_
      cases found.symm.trans (rest.getElem?_step_of_completed found' (of_decide_eq_true done))
      rw [going] at done
      cases done
    have before := ih (fun i lt => diligent i (Nat.lt_succ_of_lt lt)) found' going'
    rw [arrival] at before
    -- before the arrival a tick may pass without work, but then none is asked for
    by_cases early : n < p.arrival
    · have kept := rest.workLeft_step_le
      omega
    · have arrived : q.arrival ≤ (m.steps n).now := by
        rw [h.now_steps n, start, arrival]
        omega
      have size : 0 < (m.steps n).cpus.size := h.size_cpus_steps n ▸ cpus
      obtain ⟨lost, kept, diligent⟩ := diligent n n.lt_succ_self
      obtain ⟨r, member, running⟩ := rest.exists_running diligent size kept found' arrived going'
      have less := rest.workLeft_step_lt (balanced.steps h n) member running
      omega

/-- A process that is never lost has finished before its arrival and all work together are
exceeded. -/
theorem AtRest.unfinished_lt
    (diligent : ∀ i < n, ∃ lost, slot ∉ lost ∧ (m.steps i).DiligentBut lost)
    (found : (m.steps n).procs[slot]? = some p) (going : p.isCompleted = false) :
    n < p.arrival + m.workLeft := by
  have bound := h.workLeft_steps balanced cpus start diligent found going
  have member := List.mem_of_getElem? found
  have work_left : 0 < p.remaining := (balanced.steps h n).work_left member going
  have counted : p.remaining ≤ (m.steps n).workLeft :=
    List.le_sum_of_mem (List.mem_map_of_mem member)
  omega

end Run

end Machine
end CpuScheduling
