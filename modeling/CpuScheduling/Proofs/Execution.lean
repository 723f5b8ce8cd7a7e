import CpuScheduling.Proofs.Conservation
import CpuScheduling.Proofs.Loads
/-!
Executed work. The busy ticks that processors count, the cells of the timeline that show a process
and the work that processes have done are three accounts of the same ticks. They agree after every
tick: for each processor, for each identifier, and in all.
-/
namespace CpuScheduling

/-- The ticks of work that are done. -/
def ProcessRecord.workDone (p : ProcessRecord) : Nat := p.burst - p.remaining

/-- All recorded cells, row after row. -/
def Timeline.cells (t : Timeline) : List Cell := t.rows.toList.flatten

namespace Machine
variable {m : Machine} {cpu : Nat}

theorem sum_map_add_countP {α : Type} {f g : α → Nat} {fits : α → Bool} {l : List α}
    (each : ∀ a ∈ l, f a + (if fits a then 1 else 0) = g a) :
    (l.map f).sum + l.countP fits = (l.map g).sum := by
  induction l with
  | nil => rfl
  | cons a l ih =>
    have head := each a List.mem_cons_self
    have tail := ih fun b member => each b (List.mem_cons_of_mem a member)
    simp only [List.map_cons, List.sum_cons, List.countP_cons]
    omega

theorem countP_range_getElem? {α : Type} (fits : α → Bool) (l : List α) :
    (List.range l.length).countP (fun i => l[i]?.any fits) = l.countP fits := by
  induction l with
  | nil => rfl
  | cons a l ih =>
    rw [List.length_cons, List.range_succ_eq_map, List.countP_cons, List.countP_map,
      List.countP_cons, ← ih]
    rfl

/-- Fresh processes have done nothing. -/
theorem sum_workDone_eq_zero {procs : List ProcessRecord}
    (fresh : ∀ p ∈ procs, p = p.toJob.toRecord) : (procs.map (·.workDone)).sum = 0 := by
  refine List.sum_eq_zero fun done member => ?_
  obtain ⟨p, in_procs, rfl⟩ := List.mem_map.1 member
  rw [fresh p in_procs]
  exact Nat.sub_self _

/-! The work that is left to some of the processes. -/

/-- The processes whose jobs fit. -/
def procsOf (fits : Job → Bool) (m : Machine) : List ProcessRecord :=
  m.procs.filter fun p => fits p.toJob

theorem procsOf_all (m : Machine) : m.procsOf (fun _ => true) = m.procs :=
  List.filter_eq_self.2 fun _ _ => rfl

/-- The work that the processes whose jobs fit still need. -/
def leftTo (fits : Job → Bool) (m : Machine) : Nat := ((m.procsOf fits).map (·.remaining)).sum

theorem workLeft_eq_leftTo (m : Machine) : m.workLeft = m.leftTo fun _ => true := by
  rw [leftTo, procsOf_all, workLeft]

theorem leftTo_eq_of_accounts_eq {x y : Machine} (same : x.accounts = y.accounts)
    (fits : Job → Bool) : x.leftTo fits = y.leftTo fits := by
  have of_accounts : ∀ z : Machine, z.leftTo fits =
      ((z.accounts.filter fun a => fits a.job).map (·.remaining)).sum := fun z => by
    rw [accounts, List.filter_map, List.map_map]
    rfl
  rw [of_accounts, of_accounts, same]

/-- What some processes have done and what they have left make up their bursts. -/
theorem Balanced.sum_workDone_add (balanced : m.Balanced) {procs : List ProcessRecord}
    (inside : ∀ p ∈ procs, p ∈ m.procs) :
    (procs.map (·.workDone)).sum + (procs.map (·.remaining)).sum =
      Scenario.work (procs.map (·.toJob)) := by
  rw [← List.sum_map_add, Scenario.work, List.map_map]
  refine congrArg List.sum (List.map_congr_left fun p member => ?_)
  exact Nat.sub_add_cancel (balanced _ (List.mem_map_of_mem (inside p member))).remaining_le

theorem Balanced.sum_workDone_add_leftTo (balanced : m.Balanced) (fits : Job → Bool) :
    ((m.procsOf fits).map (·.workDone)).sum + m.leftTo fits =
      Scenario.work (m.jobs.filter fits) := by
  have whole := balanced.sum_workDone_add fun p (member : p ∈ m.procsOf fits) =>
    List.mem_of_mem_filter member
  rw [jobs, List.filter_map]
  exact whole

theorem AtRest.procsOf_step (rest : AtRest m) (fits : Job → Bool) :
    m.step.procsOf fits = (m.occupied.procsOf fits).map (·.pass m.now) := by
  rw [procsOf, rest.procs_step, List.filter_map]
  refine congrArg (List.map _) (List.filter_congr fun p _ => ?_)
  rw [Function.comp_apply, p.toJob_pass]

/-- A tick takes one unit from the work that is left for each process that runs in it. -/
theorem AtRest.leftTo_step_add (rest : AtRest m) (balanced : m.Balanced) (fits : Job → Bool) :
    m.step.leftTo fits + (m.occupied.procsOf fits).countP (·.isRunning) = m.leftTo fits := by
  rw [← leftTo_eq_of_accounts_eq rest.accounts_occupied, leftTo, rest.procsOf_step, List.map_map,
    leftTo]
  refine sum_map_add_countP fun p member => p.remaining_pass_add m.now ?_
  exact rest.work_left_of_running balanced (List.mem_filter.1 member).1

/-! Processors that hold a process, and processes that run. -/

theorem Consistent.countP_heldSlots (h : Consistent m) (fits : Job → Bool) :
    m.heldSlots.countP (fun slot => m.jobs[slot]?.any fits) =
      (m.procsOf fits).countP (·.isRunning) := by
  rw [h.heldSlots_perm.countP_eq, List.countP_filter, procsOf, List.countP_filter,
    ← countP_range_getElem? _ m.procs]
  refine List.countP_congr fun slot _ => ?_
  rw [isRunningAt, jobs, List.getElem?_map]
  cases m.procs[slot]? <;> simp [and_comm]

theorem Consistent.length_heldSlots_eq (h : Consistent m) :
    m.heldSlots.length = m.procs.countP (·.isRunning) := by
  rw [h.heldSlots_perm.length_eq, ← List.countP_eq_length_filter]
  exact countP_range_getElem? (·.isRunning) m.procs

/-- A row shows an identifier once for each process of that identifier that runs. -/
theorem Consistent.count_occupancy (h : Consistent m) (pid : Int) :
    m.occupancy.count (some pid) = (m.procsOf (·.pid == pid)).countP (·.isRunning) := by
  rw [← h.countP_heldSlots, heldSlots, List.countP_filterMap, occupancy_eq, List.count,
    List.countP_map]
  refine List.countP_congr fun cpu _ => ?_
  rw [Function.comp_apply, running]
  cases m.held cpu with
  | none => simp
  | some slot => cases found : m.jobs[slot]? <;> simp [found]

/-- A tick takes one unit from the work that is left for each processor that holds a process. -/
theorem AtRest.workLeft_step_add (rest : AtRest m) (balanced : m.Balanced) :
    m.step.workLeft + m.occupied.heldSlots.length = m.workLeft := by
  have taken := rest.leftTo_step_add balanced fun _ => true
  rwa [procsOf_all, ← workLeft_eq_leftTo, ← workLeft_eq_leftTo,
    ← rest.consistent_occupied.length_heldSlots_eq] at taken

/-! One tick, in the counts of the processors and in the timeline. -/

/-- The ticks that all processors together have been busy. -/
def busyTicks (m : Machine) : Nat := (m.cpus.toList.map (·.busy)).sum

theorem load_of_getElem? {c : Cpu} (found : m.cpus[cpu]? = some c) :
    m.load cpu = some (c.busy, c.idle) := by
  rw [load, found, Option.map_some]

theorem busyTicks_eq (m : Machine) : m.busyTicks =
    ((List.range m.cpus.size).map fun cpu => (m.load cpu).elim 0 (·.1)).sum := by
  refine congrArg List.sum (List.ext_getElem? fun cpu => ?_)
  have stored : m.cpus.toList[cpu]? = m.cpus[cpu]? := Array.getElem?_toList
  rw [List.getElem?_map, List.getElem?_map, stored]
  by_cases inside : cpu < m.cpus.size
  · have found : m.cpus[cpu]? = some m.cpus[cpu] := Array.getElem?_eq_getElem inside
    rw [List.getElem?_range inside, Option.map_some, load_of_getElem? found, found]
    rfl
  · rw [List.getElem?_eq_none (by simpa using inside),
      Array.getElem?_eq_none (Nat.le_of_not_lt inside)]
    rfl

theorem AtRest.busyTicks_step (rest : AtRest m) :
    m.step.busyTicks = m.busyTicks + m.occupied.heldSlots.length := by
  rw [busyTicks_eq, busyTicks_eq, rest.size_cpus_step, heldSlots, rest.size_cpus_occupied,
    List.length_filterMap_eq_countP]
  refine (sum_map_add_countP fun cpu member => ?_).symm
  have found := Array.getElem?_eq_getElem (List.mem_range.1 member)
  rw [rest.load_step, load_of_getElem? found, Option.map_some, loadAfter]
  split <;> rfl

theorem AtRest.cpu_step (rest : AtRest m) {c : Cpu} (found : m.step.cpus[cpu]? = some c) :
    ∃ c₀ : Cpu, m.cpus[cpu]? = some c₀ ∧
      c.busy = c₀.busy + (if (m.occupied.held cpu).isSome then 1 else 0) ∧
      c.idle = c₀.idle + if (m.occupied.held cpu).isSome then 0 else 1 := by
  have after := load_of_getElem? found
  rw [rest.load_step] at after
  obtain ⟨before, counted, same⟩ := Option.map_eq_some_iff.1 after
  obtain ⟨c₀, found₀, rfl⟩ := Option.map_eq_some_iff.1 counted
  refine ⟨c₀, found₀, ?_⟩
  cases holds : (m.occupied.held cpu).isSome <;> rw [holds] at same <;>
    obtain ⟨busy, idle⟩ := Prod.mk.inj same <;> exact ⟨busy.symm, idle.symm⟩

theorem Charted.onCpu_step (charted : Charted m) (rest : AtRest m) (cpu : Nat) :
    m.step.timeline.onCpu cpu = m.timeline.onCpu cpu ++ [m.occupied.running cpu] := by
  rw [Timeline.onCpu, charted.rows_step rest, Array.toList_push, List.map_append,
    ← join_getElem?_occupancy]
  rfl

theorem Charted.cells_step (charted : Charted m) (rest : AtRest m) :
    m.step.timeline.cells = m.timeline.cells ++ m.occupied.occupancy := by
  rw [Timeline.cells, charted.rows_step rest, Array.toList_push, List.flatten_append,
    List.flatten_singleton, Timeline.cells]

/-! Three accounts of the work. -/

/-- A machine whose processors, timeline and processes agree on the work that was done: every
processor was busy or idle in each tick so far, busy in those in which its column shows a process;
all busy ticks together are all work that is done; and an identifier fills as many cells as its
processes have worked ticks. -/
structure ExecutesOnce (m : Machine) : Prop where
  rows : m.timeline.length = m.now
  elapsed : ∀ (cpu : Nat) (c : Cpu), m.cpus[cpu]? = some c → c.busy + c.idle = m.now
  shown : ∀ (cpu : Nat) (c : Cpu), m.cpus[cpu]? = some c →
    ∃ cells, m.timeline.column cpu = some cells ∧ cells.length = m.now ∧
      cells.countP (·.isSome) = c.busy
  remaining_le : ∀ p ∈ m.procs, p.remaining ≤ p.burst
  whole : (m.cpus.toList.map (·.busy)).sum = (m.procs.map (·.workDone)).sum
  shares : ∀ pid, m.timeline.cells.count (some pid) =
    ((m.procs.filter (·.pid == pid)).map (·.workDone)).sum

section Step
variable (executes : ExecutesOnce m) (rest : AtRest m) (charted : Charted m)
include executes rest charted

theorem ExecutesOnce.shown_step {c : Cpu} (found : m.step.cpus[cpu]? = some c) :
    ∃ cells, m.step.timeline.column cpu = some cells ∧ cells.length = m.step.now ∧
      cells.countP (·.isSome) = c.busy := by
  obtain ⟨c₀, found₀, busy', -⟩ := rest.cpu_step found
  obtain ⟨cells, column, length, busy⟩ := executes.shown cpu c₀ found₀
  have inside : cpu < m.cpus.size := (Array.getElem?_eq_some_iff.1 found₀).1
  rw [Timeline.column_eq (charted.width ▸ inside)] at column
  obtain rfl := Option.some.inj column
  have inside' : cpu < m.step.timeline.width := by
    rw [(charted.step rest).width, rest.size_cpus_step]
    exact inside
  refine ⟨_, Timeline.column_eq inside', ?_⟩
  rw [charted.onCpu_step rest, List.length_append, length, rest.now_step, List.countP_append, busy,
    List.countP_singleton, rest.consistent_occupied.isSome_running, busy']
  exact ⟨rfl, rfl⟩

theorem ExecutesOnce.step (balanced : m.Balanced) : ExecutesOnce m.step where
  rows := (charted.step rest).length
  elapsed cpu c found := by
    obtain ⟨c₀, found₀, busy, idle⟩ := rest.cpu_step found
    have so_far := executes.elapsed cpu c₀ found₀
    rw [rest.now_step, busy, idle]
    split <;> omega
  shown cpu c found := executes.shown_step rest charted found
  remaining_le p member := (balanced.step rest _ (List.mem_map_of_mem member)).remaining_le
  whole := by
    -- what is done and what is left make up the same bursts before and after
    have before := balanced.sum_workDone_add_leftTo fun _ => true
    have after := (balanced.step rest).sum_workDone_add_leftTo fun _ => true
    rw [procsOf_all, ← workLeft_eq_leftTo] at before after
    have taken := rest.workLeft_step_add balanced
    have counted := rest.busyTicks_step
    have so_far : m.busyTicks = _ := executes.whole
    rw [rest.jobs_step] at after
    show m.step.busyTicks = _
    omega
  shares pid := by
    have before := balanced.sum_workDone_add_leftTo (·.pid == pid)
    have after := (balanced.step rest).sum_workDone_add_leftTo (·.pid == pid)
    have taken := rest.leftTo_step_add balanced (·.pid == pid)
    have so_far := executes.shares pid
    rw [rest.jobs_step] at after
    rw [charted.cells_step rest, List.count_append, rest.consistent_occupied.count_occupancy]
    change _ = ((m.step.procsOf (·.pid == pid)).map (·.workDone)).sum
    change _ = ((m.procsOf (·.pid == pid)).map (·.workDone)).sum at so_far
    omega

end Step

theorem ExecutesOnce.steps (executes : ExecutesOnce m) (rest : AtRest m) (charted : Charted m)
    (balanced : m.Balanced) (n : Nat) : ExecutesOnce (m.steps n) := by
  induction n with
  | zero => exact executes
  | succ n ih =>
    rw [steps_succ]
    exact ih.step (rest.steps n) (charted.steps rest n) (balanced.steps rest n)

theorem executesOnce_boot (s : Scenario) (policy : Policy) : ExecutesOnce (boot s policy) := by
  have blank : ∀ (cpu : Nat) (c : Cpu), (boot s policy).cpus[cpu]? = some c →
      cpu < s.cpus ∧ c = {} := by
    intro cpu c found
    obtain ⟨inside, rfl⟩ := Array.getElem?_eq_some_iff.1 found
    exact ⟨by simpa [boot] using inside, Array.getElem_replicate ..⟩
  constructor
  case rows => rfl
  case elapsed =>
    intro cpu c found
    rw [(blank cpu c found).2]
    rfl
  case shown =>
    intro cpu c found
    obtain ⟨inside, rfl⟩ := blank cpu c found
    exact ⟨_, Timeline.column_eq inside, rfl, rfl⟩
  case remaining_le =>
    intro p member
    rw [fresh_boot s policy p member]
    exact Nat.le_refl _
  case whole =>
    have busy : (boot s policy).busyTicks = 0 := by simp [busyTicks, boot]
    exact busy.trans (sum_workDone_eq_zero (fresh_boot s policy)).symm
  case shares =>
    intro pid
    exact (sum_workDone_eq_zero fun p member =>
      fresh_boot s policy p (List.mem_of_mem_filter member)).symm

theorem executesOnce_begun (d : Discipline) (s : Scenario) : ExecutesOnce (begun d s) :=
  let fresh := executesOnce_boot s d.policy
  ⟨fresh.rows, fresh.elapsed, fresh.shown, fresh.remaining_le, fresh.whole, fresh.shares⟩

/-- Work is executed once: after any number of ticks under any policy, and at the end of any
simulation, the counts of the processors, the timeline and the processes agree on it. -/
theorem work_executed_once (s : Scenario) (bursts : ∀ job ∈ s.jobs, 0 < job.burst) :
    (∀ algorithm quantum capacity n,
      let m := (boot s (.fresh algorithm quantum capacity)).steps n
      m.now = n ∧ m.cpus.size = s.cpus ∧ m.jobs = s.jobs ∧ ExecutesOnce m) ∧
    ∀ d, let o := simulate d s
      o.machine.cpus.size = s.cpus ∧ o.machine.jobs = s.jobs ∧ ExecutesOnce o.machine := by
  constructor
  · intro algorithm quantum capacity n
    have rest := atRest_boot s algorithm quantum capacity
    refine ⟨(rest.now_steps n).trans (Nat.zero_add n),
      (rest.size_cpus_steps n).trans Array.size_replicate,
      (rest.jobs_steps n).trans (jobs_boot s _), ?_⟩
    exact (executesOnce_boot s _).steps rest (charted_boot s _) (balanced_boot s bursts _) n
  · intro d
    obtain ⟨k, -, outcome, -⟩ := simulate_eq d s
    have rest := atRest_begun d s
    have executes :=
      (executesOnce_begun d s).steps rest (charted_begun d s) (balanced_begun d s bursts) k
    rw [outcome]
    exact ⟨(rest.size_cpus_steps k).trans (size_cpus_begun d s),
      (rest.jobs_steps k).trans (jobs_begun d s), executes.rows, executes.elapsed,
      executes.shown, executes.remaining_le, executes.whole, executes.shares⟩

/-- Two processors and three processes, two of which have one identifier. -/
def sharedPid : Scenario :=
  { cpus := 2, cpus_pos := Nat.two_pos, jobs := [⟨1, 0, 2, 0⟩, ⟨1, 0, 3, 0⟩, ⟨2, 1, 1, 0⟩] }

/-- After three ticks of turns of one tick the processes of the shared identifier have worked four
ticks on two processors. -/
theorem work_executed_once_shared :
    let m := (boot sharedPid (.fresh .roundRobin 1 500)).steps 3
    (∀ job ∈ sharedPid.jobs, 0 < job.burst) ∧ ExecutesOnce m ∧
      m.timeline.cells.count (some 1) = 4 ∧
      ((m.procs.filter (·.pid == 1)).map (·.workDone)).sum = 4 ∧
      m.timeline.column 1 = some [some 1, some 1, none] := by
  intro m
  have bursts : ∀ job ∈ sharedPid.jobs, 0 < job.burst := by decide
  obtain ⟨-, -, -, executes⟩ := (work_executed_once sharedPid bursts).1 .roundRobin 1 500 3
  have cells : m.timeline.cells.count (some 1) = 4 := by decide +kernel
  exact ⟨bursts, executes, cells, executes.shares 1 ▸ cells, by decide +kernel⟩

end Machine
end CpuScheduling
