import CpuScheduling.Proofs.Loads
import CpuScheduling.Proofs.Retold
import CpuScheduling.Proofs.Truncation
/-!
Shifting a run. As long as nobody has arrived a tick leaves nothing behind but an idle row and an
idle tick of each processor. So a run whose jobs all arrive later by some ticks is the run on the
jobs themselves after that many idle ticks.
-/
namespace CpuScheduling

/-- The same jobs, each arriving so many ticks later. -/
def Scenario.delayed (delay : Nat) (s : Scenario) : Scenario :=
  { s with jobs := s.jobs.map fun j => { j with arrival := j.arrival + delay } }

/-- A record in a run whose clock is ahead. -/
def ProcessRecord.delayed (delay : Nat) (p : ProcessRecord) : ProcessRecord :=
  { p with
    arrival := p.arrival + delay
    start := p.start.map (· + delay)
    finish := p.finish.map (· + delay) }

/-- A processor that was idle for some ticks more. -/
def Cpu.idled (ticks : Nat) (c : Cpu) : Cpu := { c with idle := c.idle + ticks }

/-- The same run by a clock that is ahead. -/
def Retelling.later (delay : Nat) : Retelling := ⟨Equiv.refl Nat, id, delay⟩

namespace Retelling
variable (delay : Nat)

theorem keepsTies_later (algorithm : Algorithm) (jobs : List Job) :
    (later delay).KeepsTies algorithm jobs := by
  intro i j a b _ _ _ before
  exact before

@[simp] theorem place_later (slot : Nat) : (later delay).place slot = slot := rfl

theorem record_later : (later delay).record = ProcessRecord.delayed delay := rfl

theorem cpu_later : (later delay).cpu = Cpu.idled delay := by
  funext c
  simp [cpu, later, Cpu.idled]

theorem row_later : (later delay).row = id := by
  funext cells
  simp [row, later]

end Retelling

namespace Machine
variable {m x y : Machine}

/-- Nobody has arrived yet. -/
def Early (m : Machine) : Prop := ∀ p ∈ m.procs, m.now < p.arrival

section Waiting
variable (h : Consistent m) (waiting : ∀ p ∈ m.procs, p.status = .waiting)
include h waiting

theorem held_eq_none_of_waiting (cpu : Nat) : m.held cpu = none := by
  cases holds : m.held cpu with
  | none => rfl
  | some slot =>
    obtain ⟨p, found, running⟩ := h.slot_lt_of_held holds
    rw [waiting p (List.mem_of_getElem? found)] at running
    cases running

theorem queued_eq_nil_of_waiting : m.queued = [] := by
  refine List.eq_nil_iff_forall_not_mem.2 fun slot queued => ?_
  obtain ⟨p, found, ready⟩ := status?_eq_some.1 (h.queued_ready slot queued)
  rw [waiting p (List.mem_of_getElem? found)] at ready
  cases ready

end Waiting

section Early
variable (early : m.Early)
include early

theorem Consistent.waiting_of_early (h : Consistent m) : ∀ p ∈ m.procs, p.status = .waiting := by
  intro p member
  rw [h.unarrived p member (early p member)]
  rfl

/-- There is nothing to be moved. -/
theorem Move.eq_of_early (h : Consistent m) {m' : Machine} (move : Move m m') : m' = m := by
  have waiting := h.waiting_of_early early
  cases move with
  | place idle found pending arrived unqueued =>
    exact absurd (early _ (List.mem_of_getElem? found)) (Nat.not_lt_of_le arrived)
  | displace holds found running cause notice =>
    rw [held_eq_none_of_waiting h waiting] at holds
    cases holds
  | enqueue ready unqueued =>
    obtain ⟨p, found, ready⟩ := status?_eq_some.1 ready
    rw [waiting p (List.mem_of_getElem? found)] at ready
    cases ready
  | @dequeue quantum queue policy =>
    have empty := queued_eq_nil_of_waiting h waiting
    obtain ⟨slots, capacity, bound⟩ := queue
    obtain rfl : slots = [] := by simpa [queued, policy, Policy.queue?] using empty
    show { m with policy := .roundRobin quantum ⟨[], capacity, bound⟩ } = m
    rw [← policy]

theorem Moves.eq_of_early (h : Consistent m) {m' : Machine} (moves : Moves m m') : m' = m := by
  induction moves with
  | refl => rfl
  | tail _ last ih =>
    subst ih
    exact last.eq_of_early early h

theorem procs_enrolled_of_early : m.enrolled.procs = m.procs := by
  rw [procs_enrolled]
  exact (List.map_congr_left fun p member => p.enroll_of_later _ _ (early p member)).trans
    (List.map_id _)

theorem Early.enrolled : m.enrolled.Early := by
  rw [Early, procs_enrolled_of_early early]
  exact early

theorem AtRest.occupied_of_early (rest : AtRest m) : m.occupied = m.enrolled :=
  rest.moves_occupied.eq_of_early early.enrolled rest.enrolled

end Early

/-- Vacant processors count a tick, and nothing else changes. -/
theorem work_of_vacant (vacant : ∀ cpu, m.held cpu = none) :
    m.work = { m with cpus := m.work.cpus } ∧ m.work.held = m.held := by
  refine atEachCpu_induction
    (P := fun _ x => x = { m with cpus := x.cpus } ∧ x.held = m.held) ⟨rfl, rfl⟩ ?_
  rintro cpu x - ⟨so_far, held⟩
  have free : x.held cpu = none := by rw [held, vacant]
  rw [workAt_of_vacant (occupant?_eq_none free)]
  refine ⟨?_, (held_elapse x cpu).trans held⟩
  conv_lhs => rw [so_far]

theorem occupancy_of_vacant (vacant : ∀ cpu, m.held cpu = none) :
    m.occupancy = Timeline.blankRow m.cpus.size := by
  have free := List.map_congr_left (l := List.range m.cpus.size)
    fun cpu _ => running_of_free (vacant cpu)
  rw [occupancy_eq, free, Timeline.blankRow, List.map_const', List.length_range]

/-- Vacant processors are idle for a tick. -/
theorem cpus_work_of_vacant (h : Consistent m) (vacant : ∀ cpu, m.held cpu = none) :
    m.work.cpus = m.cpus.map (·.idled 1) := by
  refine cpus_eq (x := m.work) (y := { m with cpus := m.cpus.map (·.idled 1) }) ?_ ?_
  · rw [(work_of_vacant vacant).2]
    funext cpu
    cases found : m.cpus[cpu]? <;> simp [held, found, Cpu.idled]
  · funext cpu
    rw [load_work h, vacant]
    cases found : m.cpus[cpu]? <;> simp [load, found, Cpu.idled, loadAfter]

section Early
variable (rest : AtRest m) (early : m.Early)
include rest early

/-- A tick before any arrival adds an idle tick and a row to what is recorded, and no more. -/
theorem AtRest.step_of_early : m.step =
    { m with
      cpus := m.cpus.map (·.idled 1)
      timeline := m.step.timeline
      now := m.now + 1
      journal := m.step.journal } := by
  have procs : m.aged.procs = m.procs := by
    show m.occupied.procs.map (·.ageWaiting m.occupied.now) = m.procs
    rw [rest.now_occupied, rest.occupied_of_early early, procs_enrolled_of_early early]
    exact (List.map_congr_left fun p member => p.ageWaiting_of_later _ (early p member)).trans
      (List.map_id _)
  have aged : m.aged = { m with timeline := m.aged.timeline, journal := m.aged.journal } := by
    have shape : m.aged = { m with
        procs := m.aged.procs, timeline := m.aged.timeline, journal := m.aged.journal } := by
      unfold aged shown
      rw [rest.occupied_of_early early]
      rfl
    rw [procs] at shape
    exact shape
  have vacant : ∀ cpu, m.aged.held cpu = none :=
    held_eq_none_of_waiting rest.consistent_aged (procs ▸ rest.waiting_of_early early)
  have cpus : m.aged.work.cpus = m.cpus.map (·.idled 1) := by
    rw [cpus_work_of_vacant rest.consistent_aged vacant, aged]
  have step : m.step = { m.aged with cpus := m.aged.work.cpus, now := m.aged.now + 1 } := by
    rw [step_eq, worked, (work_of_vacant vacant).1]
    rfl
  rw [step, cpus, aged]

theorem Charted.rows_step_of_early (charted : Charted m) : m.step.timeline.rows =
    m.timeline.rows.push (Timeline.blankRow m.cpus.size) := by
  have vacant : ∀ cpu, m.enrolled.held cpu = none :=
    held_eq_none_of_waiting rest.enrolled (rest.enrolled.waiting_of_early early.enrolled)
  rw [charted.rows_step rest, rest.occupied_of_early early, occupancy_of_vacant vacant]
  rfl

end Early

/-- Ticks before any arrival leave an idle tick each on every processor. -/
theorem AtRest.steps_of_early (rest : AtRest m) {n : Nat}
    (early : ∀ p ∈ m.procs, m.now + n ≤ p.arrival) : m.steps n =
      { m with
        cpus := m.cpus.map (·.idled n)
        timeline := (m.steps n).timeline
        now := m.now + n
        journal := (m.steps n).journal } := by
  induction n with
  | zero =>
    have same : m.cpus.map (·.idled 0) = m.cpus := Array.map_id _
    rw [same]
    rfl
  | succ n ih =>
    have so_far := ih fun p member => Nat.le_of_succ_le (early p member)
    have early' : (m.steps n).Early := by
      rw [so_far]
      exact early
    have next := (rest.steps n).step_of_early early'
    rw [← steps_succ] at next
    rw [next, so_far]
    simp [Cpu.idled, Function.comp_def, Nat.add_assoc]

/-- They leave an idle row each. -/
theorem Charted.rows_steps_of_early (charted : Charted m) (rest : AtRest m) {n : Nat}
    (early : ∀ p ∈ m.procs, m.now + n ≤ p.arrival) : (m.steps n).timeline.rows =
      m.timeline.rows ++ Array.replicate n (Timeline.blankRow m.cpus.size) := by
  induction n with
  | zero => exact Array.append_empty.symm
  | succ n ih =>
    have so_far := rest.steps_of_early fun p member => Nat.le_of_succ_le (early p member)
    have early' : (m.steps n).Early := by
      rw [so_far]
      exact early
    have size : (m.steps n).cpus.size = m.cpus.size := by
      rw [so_far]
      exact Array.size_map
    rw [steps_succ, (charted.steps rest n).rows_step_of_early (rest.steps n) early', size,
      ih fun p member => Nat.le_of_succ_le (early p member)]
    simp [Array.replicate_succ]

section Delayed
variable (d : Discipline) (s : Scenario) (delay : Nat)

theorem procs_begun_delayed :
    (begun d (s.delayed delay)).procs = (begun d s).procs.map (·.delayed delay) := by
  simp [begun, say, boot, ProcessTable.ofJobs, Scenario.delayed, Job.toRecord,
    ProcessRecord.delayed, Function.comp_def]

theorem le_arrival_begun_delayed :
    ∀ p ∈ (begun d (s.delayed delay)).procs, 0 + delay ≤ p.arrival := by
  intro p member
  rw [procs_begun_delayed] at member
  obtain ⟨q, -, rfl⟩ := List.mem_map.1 member
  exact Nat.add_le_add_right (Nat.zero_le _) delay

/-- The run on delayed jobs comes to where the run on the jobs begins. -/
theorem retold_delayed :
    Retold (.later delay) (begun d s) ((begun d (s.delayed delay)).steps delay) := by
  have rest := atRest_begun d (s.delayed delay)
  have charted := charted_begun d (s.delayed delay)
  have early := le_arrival_begun_delayed d s delay
  have procs := procs_begun_delayed d s delay
  have timeline : (begun d s).timeline.Retold (.later delay)
      ((begun d (s.delayed delay)).steps delay).timeline := by
    refine ⟨?_, ?_, ?_⟩
    · rw [(charted.steps rest delay).width, rest.size_cpus_steps, size_cpus_begun]
      rfl
    · rw [charted.rows_steps_of_early rest early, size_cpus_begun, Retelling.rows,
        Retelling.row_later]
      simp [begun, say, boot, Scenario.delayed, Retelling.later]
    · rintro rfl
      rfl
  rw [rest.steps_of_early early]
  constructor
  case length => simp [procs]
  case procs => simp [procs, Retelling.record_later]
  case cpus => rw [Retelling.cpu_later]; rfl
  case policy => exact (Retelling.policy_start _ d.quantum d.algorithm).symm
  case timeline => exact timeline
  case trace => simp [begun, say, boot]
  case now => rfl
  case completed => rfl
  case dropped => rfl

/-- As long as nobody of some has arrived, somebody has not finished. -/
theorem unfinished_delayed (some_job : s.jobs ≠ []) {i : Nat} (before : i < delay) :
    ((begun d (s.delayed delay)).steps i).allFinished = false := by
  have early := le_arrival_begun_delayed d s delay
  rw [(atRest_begun d (s.delayed delay)).steps_of_early fun p member =>
    (Nat.add_le_add_left before.le 0).trans (early p member)]
  simpa [allFinished, begun, say, boot, ProcessTable.ofJobs, Scenario.delayed] using some_job

end Delayed

theorem width_simulate (d : Discipline) (s : Scenario) :
    (simulate d s).machine.timeline.width = s.cpus := by
  obtain ⟨k, -, outcome, -⟩ := simulate_eq d s
  have rest := atRest_begun d s
  rw [outcome]
  exact ((charted_begun d s).steps rest k).width.trans
    ((rest.size_cpus_steps k).trans (size_cpus_begun d s))

/-- When every job arrives later by some ticks and the limit is as much later, the run is the same
but for the idle ticks before it: all that the clock tells is later by as much, all that is counted
in the records stays, each processor has been idle so much longer, and the timeline begins with so
many idle rows. -/
theorem simulate_delayed (d : Discipline) {s : Scenario} (some_job : s.jobs ≠ [])
    (delay limit : Nat) :
    let o := simulate d (s.limited (some limit))
    let o' := simulate d ((s.delayed delay).limited (some (limit + delay)))
    o'.totalTicks = o.totalTicks + delay ∧ o'.isComplete = o.isComplete ∧
      o'.machine.procs = o.machine.procs.map (·.delayed delay) ∧
      o'.machine.cpus = o.machine.cpus.map (·.idled delay) ∧
      o'.machine.dropped = o.machine.dropped ∧
      o'.machine.trace = o.machine.trace.map (fun e => { e with tick := e.tick + delay }) ∧
      o'.machine.timeline.rows = Array.replicate delay (Timeline.blankRow s.cpus) ++
        o.machine.timeline.rows := by
  have bound : ((s.delayed delay).limited (some (limit + delay))).bound =
      (s.limited (some limit)).bound + (Retelling.later delay).delay := rfl
  obtain ⟨told, ending⟩ := simulate_retold d bound
    (Retelling.keepsTies_later delay d.algorithm s.jobs) (retold_delayed d s delay)
    fun i before => unfinished_delayed d s delay some_job before
  refine ⟨told.now, ?_, ?_, ?_, told.dropped, told.trace, ?_⟩
  · simp only [Outcome.isComplete, ending]
    cases (simulate d (s.limited (some limit))).ending <;> simp [Retelling.ending]
  · refine List.ext_getElem? fun slot => ?_
    rw [List.getElem?_map]
    exact told.procs slot
  · rw [told.cpus, Retelling.cpu_later]
  · rw [told.timeline.rows, width_simulate, Retelling.rows, Retelling.row_later, Array.map_id]
    rfl

/-- Three ticks later the shorter job still evicts the one that it finds running. -/
theorem simulate_delayed_evicted :
    let o := simulate ⟨.srtf, 1⟩ (shorterArrival.limited (some 4))
    let o' := simulate ⟨.srtf, 1⟩ ((shorterArrival.delayed 3).limited (some (4 + 3)))
    shorterArrival.jobs ≠ [] ∧ o'.totalTicks = o.totalTicks + 3 ∧
      o'.machine.procs = o.machine.procs.map (·.delayed 3) ∧
      o'.machine.timeline.rows = Array.replicate 3 [none] ++ o.machine.timeline.rows ∧
      o'.machine.procs.map (fun p => (p.start, p.finish, p.waited)) =
        [(some 3, some 7, 1), (some 4, some 5, 0)] := by
  intro o o'
  have some_job : shorterArrival.jobs ≠ [] := by decide
  obtain ⟨ticks, -, procs, -, -, -, rows⟩ := simulate_delayed ⟨.srtf, 1⟩ some_job 3 4
  exact ⟨some_job, ticks, procs, rows, by decide +kernel⟩

end Machine
end CpuScheduling
