import CpuScheduling.Proofs.Rounds
/-!
The work of a tick: what one processor does, and that together they give a unit of work to every
process that runs.
-/
namespace CpuScheduling

theorem ProcessTable.countCompleted_set {procs : List ProcessRecord} {slot : Nat}
    {p : ProcessRecord} (found : procs[slot]? = some p) (unfinished : p.isCompleted = false)
    (q : ProcessRecord) :
    countCompleted (procs.set slot q) = countCompleted procs + if q.isCompleted then 1 else 0 := by
  have counts := Machine.countP_set_add (·.isCompleted) found q
  rw [unfinished] at counts
  exact counts

namespace Machine
variable {m : Machine}

/-! One processor. -/
section WorkAt
variable {cpu slot : Nat} {p : ProcessRecord}

theorem workAt_of_vacant (vacant : m.occupant? cpu = none) :
    workAt cpu m = { m with cpus := m.cpus.modify cpu Cpu.elapse } := by
  rw [workAt, vacant]

theorem workAt_of_held (holds : m.held cpu = some slot) (found : m.procs[slot]? = some p) :
    workAt cpu m =
      let after := { m with
        procs := m.procs.set slot (p.work m.now), cpus := m.cpus.modify cpu Cpu.elapse }
      if p.remaining ≤ 1 then after.retire cpu p else after := by
  rw [workAt, occupant?_eq_some.2 ⟨holds, found⟩]
  simp only [ProcessRecord.isSpent_work, decide_eq_true_eq]

theorem held_elapse (m : Machine) (cpu : Nat) :
    Machine.held { m with cpus := m.cpus.modify cpu Cpu.elapse } = m.held :=
  bind_current_modify_elapse m.cpus cpu

theorem now_workAt (m : Machine) (cpu : Nat) : (workAt cpu m).now = m.now := by
  unfold workAt
  split
  · rfl
  · dsimp only
    split <;> rfl

theorem policy_workAt (m : Machine) (cpu : Nat) : (workAt cpu m).policy = m.policy := by
  unfold workAt
  split
  · rfl
  · dsimp only
    split <;> rfl

theorem dropped_workAt (m : Machine) (cpu : Nat) : (workAt cpu m).dropped = m.dropped := by
  unfold workAt
  split
  · rfl
  · dsimp only
    split <;> rfl

theorem size_cpus_workAt (m : Machine) (cpu : Nat) : (workAt cpu m).cpus.size = m.cpus.size := by
  unfold workAt
  split
  · exact Array.size_modify
  · dsimp only
    split
    · rw [retire, Array.size_modify, Array.size_modify]
    · exact Array.size_modify

variable (holds : m.held cpu = some slot) (found : m.procs[slot]? = some p)
include holds found

theorem procs_workAt : (workAt cpu m).procs = m.procs.set slot (p.work m.now) := by
  rw [workAt_of_held holds found]
  dsimp only
  split <;> rfl

theorem status?_workAt :
    (workAt cpu m).status? = Function.update m.status? slot (some (p.work m.now).status) := by
  unfold status?
  rw [procs_workAt holds found]
  exact map_status_set found _

theorem held_workAt : (workAt cpu m).held =
    if p.remaining ≤ 1 then Function.update m.held cpu none else m.held := by
  rw [workAt_of_held holds found]
  dsimp only
  split
  · have inside : cpu < (m.cpus.modify cpu Cpu.elapse).size := by
      rw [Array.size_modify]
      exact held_lt holds
    have released : ∀ c : Cpu, c.release.current = none := fun _ => rfl
    refine (bind_current_modify inside released).trans ?_
    rw [bind_current_modify_elapse]
    rfl
  · exact held_elapse m cpu

theorem completed_workAt :
    (workAt cpu m).completed = m.completed + if p.remaining ≤ 1 then 1 else 0 := by
  rw [workAt_of_held holds found]
  dsimp only
  split <;> rfl

end WorkAt

theorem Consistent.workAt (h : Consistent m) (cpu : Nat) : Consistent (workAt cpu m) := by
  cases holds : m.held cpu with
  | none =>
    rw [workAt_of_vacant (occupant?_eq_none holds)]
    exact h.congr rfl (held_elapse m cpu) rfl rfl rfl
  | some slot =>
    obtain ⟨p, found, running⟩ := h.slot_lt_of_held holds
    have unfinished : p.isCompleted = false := by simp [ProcessRecord.isCompleted, running]
    have queued_eq : (Machine.workAt cpu m).queued = m.queued := by
      unfold queued
      rw [policy_workAt]
    have at_cpu := (h.matching cpu slot).1 holds
    constructor
    case matching =>
      rw [held_workAt holds found, status?_workAt holds found, p.status_work]
      split
      · exact h.matching.release holds fun _ => by simp
      · rw [running, ← at_cpu, Function.update_eq_self]
        exact h.matching
    case completed_eq =>
      rw [completed_workAt holds found, procs_workAt holds found,
        ProcessTable.countCompleted_set found unfinished, h.completed_eq]
      congr 1
      by_cases last : p.remaining ≤ 1 <;>
        simp [ProcessRecord.isCompleted, p.status_work, last, running]
    case queued_nodup =>
      rw [queued_eq]
      exact h.queued_nodup
    case queued_ready =>
      intro s member
      rw [queued_eq] at member
      rw [status?_workAt holds found, Function.update_of_ne]
      · exact h.queued_ready s member
      · rintro rfl
        exact h.not_queued at_cpu (by simp) member
    case unarrived =>
      rw [procs_workAt holds found, now_workAt]
      refine h.unarrived_set ?_
      rw [p.toJob_work]
      exact h.arrived_of_running found running

theorem Consistent.work (h : Consistent m) : Consistent m.work :=
  atEachCpu_induction (P := fun _ x => Consistent x) h fun cpu _ _ hx => hx.workAt cpu

/-! All processors. -/

theorem visits_workAt : Visits ProcessRecord.work workAt where
  now cpu x := now_workAt x cpu
  elsewhere cpu x c other := by
    cases occupied : x.occupant? cpu with
    | none =>
      rw [workAt_of_vacant occupied]
      exact congrFun (held_elapse x cpu) c
    | some entry =>
      obtain ⟨holds, found⟩ := occupant?_eq_some.1 occupied
      rw [held_workAt holds found]
      split
      · rw [Function.update_of_ne other]
      · rfl
  idle cpu x free := by rw [workAt_of_vacant (occupant?_eq_none free)]
  busy cpu x slot p holds found := procs_workAt holds found

/-- The work of a tick gives one unit of work to every process that runs, and changes no other. -/
theorem procs_work (h : Consistent m) :
    m.work.procs = m.procs.map fun p => if p.isRunning then p.work m.now else p :=
  visits_workAt.procs_round h

theorem now_work (h : Consistent m) : m.work.now = m.now := visits_workAt.now_round h

theorem size_cpus_work (m : Machine) : m.work.cpus.size = m.cpus.size :=
  atEachCpu_keeps (f := fun x => x.cpus.size) fun cpu x => size_cpus_workAt x cpu

end Machine
end CpuScheduling
