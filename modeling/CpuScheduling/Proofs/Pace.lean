import CpuScheduling.Proofs.Comparison
import CpuScheduling.Proofs.Execution
/-!
The pace of one processor. It is busy in every tick in which a process is unfinished that has
arrived, whichever process a policy picks, so the work that is left falls alike under all policies.
-/
namespace CpuScheduling

namespace Scenario

/-- The work of the jobs that arrive after a tick. -/
def workAfter (jobs : List Job) (tick : Nat) : Nat :=
  (jobs.map fun job => if tick < job.arrival then job.burst else 0).sum

/-- The work left after some ticks to one processor that idles only while all that is left is still
to arrive. -/
def pace (jobs : List Job) : Nat → Nat
  | 0 => work jobs
  | n + 1 => pace jobs n - if workAfter jobs n < pace jobs n then 1 else 0

end Scenario

open Scenario (workAfter pace)

namespace Machine
variable {m : Machine}

/-! One tick. -/

/-- More work is left than is still to arrive just if some process that has arrived is
unfinished. -/
theorem AtRest.workAfter_lt_iff (rest : AtRest m) (balanced : m.Balanced) :
    workAfter m.jobs m.now < m.workLeft ↔
      ∃ p ∈ m.procs, p.arrival ≤ m.now ∧ p.status ≠ .completed := by
  let later (p : ProcessRecord) : Nat := if m.now < p.arrival then p.burst else 0
  have to_come : workAfter m.jobs m.now = (m.procs.map later).sum := by
    rw [workAfter, jobs, List.map_map]
    rfl
  have absent : ∀ p ∈ m.procs, m.now < p.arrival → p.remaining = p.burst := by
    intro p member late
    rw [rest.unarrived p member late]
    rfl
  have under : ∀ p ∈ m.procs, later p ≤ p.remaining := by
    intro p member
    dsimp only [later]
    split
    next late => exact (absent p member late).ge
    next => exact Nat.zero_le _
  rw [to_come, workLeft]
  constructor
  · intro more
    by_contra none_left
    have same : m.procs.map later = m.procs.map (·.remaining) := by
      refine List.map_congr_left fun p member => ?_
      dsimp only [later]
      split
      next late => exact (absent p member late).symm
      next early =>
        by_contra other
        refine none_left ⟨p, member, Nat.le_of_not_lt early, fun done => ?_⟩
        exact other ((balanced.completed_iff member).1 done).symm
    rw [same] at more
    exact Nat.lt_irrefl _ more
  · rintro ⟨p, member, arrived, going⟩
    refine List.sum_lt_sum _ _ under ⟨p, member, ?_⟩
    dsimp only [later]
    rw [if_neg (Nat.not_lt_of_le arrived)]
    exact Nat.pos_of_ne_zero fun none_left => going ((balanced.completed_iff member).2 none_left)

theorem AtRest.allFinished_iff_workLeft (rest : AtRest m) (balanced : m.Balanced) :
    m.allFinished = true ↔ m.workLeft = 0 := by
  rw [rest.allFinished_iff, workLeft, List.sum_eq_zero_iff]
  simp only [List.mem_map, forall_exists_index, and_imp, forall_apply_eq_imp_iff₂]
  exact forall₂_congr fun p member => balanced.completed_iff member

/-! Runs. -/

theorem length_heldSlots_of_single (single : m.cpus.size = 1) :
    m.heldSlots.length = if (m.held 0).isSome then 1 else 0 := by
  rw [heldSlots, single]
  cases holds : m.held 0 <;> simp [List.range_succ, holds]

section Run
variable (rest : AtRest m) (l : Ledger {} m) (balanced : m.Balanced) (single : m.cpus.size = 1)
  (kept : ∀ n, (m.turnLog n).refused = []) (zero : m.now = 0)
include rest l balanced single kept zero

/-- In each tick the processor is busy just if there is work for it. -/
theorem AtRest.held_iff (t : Nat) : ((m.steps t).occupied.held 0).isSome = true ↔
    workAfter m.jobs t < (m.steps t).workLeft := by
  have rest' := rest.steps t
  have now : (m.steps t).now = t := by rw [rest.now_steps, zero, Nat.zero_add]
  have size : (m.steps t).occupied.cpus.size = 1 := by
    rw [rest'.size_cpus_occupied, rest.size_cpus_steps, single]
  have count := rest.length_heldSlots l t
  rw [length_heldSlots_of_single size, single] at count
  have busy : ((m.steps t).occupied.held 0).isSome = true ↔ 0 < (m.eligible t).length := by
    split at count
    next holds => exact iff_of_true holds (by omega)
    next free => exact iff_of_false free (by omega)
  have to_come := rest'.workAfter_lt_iff (balanced.steps rest t)
  rw [rest.jobs_steps, now] at to_come
  rw [busy, to_come, List.length_pos_iff_exists_mem]
  constructor
  · rintro ⟨slot, member⟩
    obtain ⟨-, p, found, arrived, going⟩ := isEligible_iff.1 (List.mem_filter.1 member).2
    exact ⟨p, List.mem_of_getElem? found, by omega, going⟩
  · rintro ⟨p, member, arrived, going⟩
    obtain ⟨slot, found⟩ := List.mem_iff_getElem?.1 member
    have inside := (List.getElem?_eq_some_iff.1 found).1
    rw [rest.length_procs_steps] at inside
    refine ⟨slot, List.mem_filter.2 ⟨List.mem_range.2 inside, isEligible_iff.2 ⟨?_, p, found, ?_,
      going⟩⟩⟩
    · rw [kept]
      exact List.not_mem_nil
    · omega

/-- The work that is left falls at the pace of one processor, whatever the policy. -/
theorem AtRest.workLeft_steps_eq (whole : m.workLeft = Scenario.work m.jobs) (n : Nat) :
    (m.steps n).workLeft = pace m.jobs n := by
  induction n with
  | zero => exact whole
  | succ n ih =>
    have rest' := rest.steps n
    have size : (m.steps n).occupied.cpus.size = 1 := by
      rw [rest'.size_cpus_occupied, rest.size_cpus_steps, single]
    have taken := rest'.workLeft_step_add (balanced.steps rest n)
    rw [length_heldSlots_of_single size, ih] at taken
    simp only [rest.held_iff l balanced single kept zero n, ih] at taken
    rw [steps_succ, pace]
    omega

end Run

section Single
variable {s : Scenario} (single : s.cpus = 1) (bursts : ∀ job ∈ s.jobs, 0 < job.burst)
  (room : s.jobs.length ≤ defaultQueueCapacity) (d : Discipline)
include single bursts room

theorem workLeft_begun_eq (n : Nat) : ((begun d s).steps n).workLeft = pace s.jobs n := by
  have law := (atRest_begun d s).workLeft_steps_eq (ledger_begun d s) (balanced_begun d s bursts)
    ((size_cpus_begun d s).trans single) (refused_begun d s room) rfl
  rw [jobs_begun] at law
  exact law (workLeft_begun d s) n

theorem held_begun_iff (t : Nat) : (((begun d s).steps t).occupied.held 0).isSome = true ↔
    workAfter s.jobs t < pace s.jobs t := by
  have law := (atRest_begun d s).held_iff (ledger_begun d s) (balanced_begun d s bursts)
    ((size_cpus_begun d s).trans single) (refused_begun d s room) rfl t
  rwa [jobs_begun, workLeft_begun_eq single bursts room d t] at law

theorem allFinished_begun_iff (n : Nat) :
    ((begun d s).steps n).allFinished = true ↔ pace s.jobs n = 0 := by
  rw [← workLeft_begun_eq single bursts room d n]
  exact ((atRest_begun d s).steps n).allFinished_iff_workLeft
    ((balanced_begun d s bursts).steps (atRest_begun d s) n)

/-- The timeline shows the processor busy in the ticks of the run in which there is work for it. -/
theorem isSome_get_begun (k t : Nat) : (((begun d s).steps k).timeline.get t 0).isSome =
    decide (t < k ∧ workAfter s.jobs t < pace s.jobs t) := by
  have rest := atRest_begun d s
  have charted := charted_begun d s
  apply Bool.eq_iff_iff.2
  rw [decide_eq_true_iff]
  rcases Nat.lt_or_ge t k with early | late
  · have shown := charted.get_steps rest early 0
    rw [show (begun d s).now + t = t from Nat.zero_add t] at shown
    rw [shown, (rest.steps t).consistent_occupied.isSome_running,
      held_begun_iff single bursts room]
    exact (and_iff_right early).symm
  · have now : ((begun d s).steps k).now = k := (rest.now_steps k).trans (Nat.zero_add k)
    rw [(charted.steps rest k).get_of_le (now.trans_le late)]
    exact iff_of_false (by simp) fun busy => Nat.not_lt_of_le late busy.1

theorem load_begun_eq (d' : Discipline) (n cpu : Nat) :
    ((begun d s).steps n).load cpu = ((begun d' s).steps n).load cpu := by
  induction n with
  | zero => rfl
  | succ n ih =>
    have size : ∀ e : Discipline, ((begun e s).steps n).cpus.size = 1 := fun e =>
      ((atRest_begun e s).size_cpus_steps n).trans ((size_cpus_begun e s).trans single)
    rw [steps_succ, steps_succ, ((atRest_begun d s).steps n).load_step,
      ((atRest_begun d' s).steps n).load_step, ih]
    by_cases first : cpu = 0
    · subst first
      have same : (((begun d s).steps n).occupied.held 0).isSome =
          (((begun d' s).steps n).occupied.held 0).isSome := by
        apply Bool.eq_iff_iff.2
        rw [held_begun_iff single bursts room, held_begun_iff single bursts room]
      rw [same]
    · have absent : ((begun d' s).steps n).load cpu = none := by
        rw [load, Array.getElem?_eq_none (by rw [size]; omega), Option.map_none]
      rw [absent]
      rfl

end Single

/-- On one processor, with a place in the queue for every process, any two disciplines keep the
processor busy in the same ticks, have the same work left after every tick, and end together, with
the same counts of busy and idle ticks. -/
theorem one_processor_pace (s : Scenario) (single : s.cpus = 1)
    (bursts : ∀ job ∈ s.jobs, 0 < job.burst) (room : s.jobs.length ≤ defaultQueueCapacity)
    (d d' : Discipline) :
    let o := simulate d s
    let o' := simulate d' s
    (∀ t, (o.occupantAt t 0).isSome = (o'.occupantAt t 0).isSome) ∧
      (∀ n, ((begun d s).steps n).workLeft = ((begun d' s).steps n).workLeft) ∧
      o.machine.workLeft = o'.machine.workLeft ∧ o.totalTicks = o'.totalTicks ∧
      o.ending = o'.ending ∧ ∀ cpu, o.machine.load cpu = o'.machine.load cpu := by
  have work : ∀ n, ((begun d s).steps n).workLeft = ((begun d' s).steps n).workLeft := fun n =>
    (workLeft_begun_eq single bursts room d n).trans (workLeft_begun_eq single bursts room d' n).symm
  have together : ∀ n, ((begun d s).steps n).allFinished = ((begun d' s).steps n).allFinished := by
    intro n
    apply Bool.eq_iff_iff.2
    rw [allFinished_begun_iff single bursts room, allFinished_begun_iff single bursts room]
  obtain ⟨k, outcome, outcome'⟩ := simulate_together d d' s together
  have now : ∀ e : Discipline, ((begun e s).steps k).now = k := fun e =>
    ((atRest_begun e s).now_steps k).trans (Nat.zero_add k)
  rw [outcome, outcome']
  refine ⟨fun t => ?_, work, work k, (now d).trans (now d').symm, ?_,
    load_begun_eq single bursts room d d' k⟩
  · exact (isSome_get_begun single bursts room d k t).trans
      (isSome_get_begun single bursts room d' k t).symm
  · simp only [ending, together k]

/-- One processor and three jobs; the last one arrives when the others have long finished. -/
def lateArrival : Scenario :=
  { cpus := 1, cpus_pos := Nat.one_pos, jobs := [⟨1, 0, 2, 0⟩, ⟨2, 1, 1, 0⟩, ⟨3, 5, 1, 0⟩] }

/-- Turns of one tick and shortest remaining time first show different processes in the same
ticks. -/
theorem one_processor_pace_late :
    let o := simulate ⟨.roundRobin, 1⟩ lateArrival
    let o' := simulate ⟨.srtf, 2⟩ lateArrival
    lateArrival.cpus = 1 ∧ (∀ job ∈ lateArrival.jobs, 0 < job.burst) ∧
      lateArrival.jobs.length ≤ defaultQueueCapacity ∧
      (∀ t, (o.occupantAt t 0).isSome = (o'.occupantAt t 0).isSome) ∧
      o.totalTicks = o'.totalTicks ∧ o.machine.load 0 = o'.machine.load 0 ∧
      o'.machine.load 0 = some (4, 2) ∧
      (List.range 6).map (o.occupantAt · 0) = [some 1, some 2, some 1, none, none, some 3] ∧
      (List.range 6).map (o'.occupantAt · 0) = [some 1, some 1, some 2, none, none, some 3] := by
  intro o o'
  have bursts : ∀ job ∈ lateArrival.jobs, 0 < job.burst := by decide
  have room : lateArrival.jobs.length ≤ defaultQueueCapacity := by decide
  obtain ⟨cells, -, -, ticks, -, loads⟩ :=
    one_processor_pace lateArrival rfl bursts room ⟨.roundRobin, 1⟩ ⟨.srtf, 2⟩
  exact ⟨rfl, bursts, room, cells, ticks, loads 0, by decide +kernel, by decide +kernel,
    by decide +kernel⟩

end Machine
end CpuScheduling
