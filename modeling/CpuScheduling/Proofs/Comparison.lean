import CpuScheduling.Proofs.Replay
/-!
Comparing runs. Policies differ in whether an arrived process is marked ready or goes on waiting for
the scan that picks it. Two machines are alike if they differ in that mark only. The second half of
a tick, from the row of the timeline on, keeps machines alike whatever their policies are, so two
runs agree if their policies give the processors to the same processes in every tick.
-/
namespace CpuScheduling

namespace ProcessRecord

/-- A record without the mark that tells ready from waiting. -/
def unmarked (p : ProcessRecord) : ProcessRecord :=
  if p.status = .ready then { p with status := .waiting } else p

variable (p : ProcessRecord) (now : Nat)

theorem unmarked_of_ne {p : ProcessRecord} (other : p.status ≠ .ready) : p.unmarked = p :=
  if_neg other

@[simp] theorem toJob_unmarked : p.unmarked.toJob = p.toJob := by
  unfold unmarked
  split <;> rfl

@[simp] theorem remaining_unmarked : p.unmarked.remaining = p.remaining := by
  unfold unmarked
  split <;> rfl

theorem unmarked_dispatch (cpu : Nat) :
    (p.dispatch cpu now).unmarked = p.unmarked.dispatch cpu now := by
  by_cases ready : p.status = .ready <;> simp [unmarked, dispatch, ready]

theorem unmarked_ageWaiting : (p.ageWaiting now).unmarked = p.unmarked.ageWaiting now := by
  by_cases ready : p.status = .ready
  · simp only [unmarked, ageWaiting, arrivedBy, isCompleted, isRunning, ready]
    by_cases arrived : p.arrival ≤ now <;> simp [arrived, ready]
  · rw [unmarked_of_ne ready, unmarked_of_ne]
    rwa [status_ageWaiting]

theorem unmarked_work : (p.work now).unmarked = p.unmarked.work now := by
  by_cases ready : p.status = .ready <;> by_cases last : p.remaining - 1 = 0 <;>
    simp [unmarked, work, ready, last]

theorem unmarked_enroll (algorithm : Algorithm) :
    (p.enroll algorithm now).unmarked = p.unmarked := by
  rcases p.enroll_cases algorithm now with same | ⟨waiting, -, ready⟩
  · rw [same]
  · rw [ready, unmarked, if_pos rfl, unmarked_of_ne] <;> simp [waiting]
    cases p
    cases waiting
    rfl

@[simp] theorem unmarked_unmarked : p.unmarked.unmarked = p.unmarked := by
  by_cases ready : p.status = .ready <;> simp [unmarked, ready]

end ProcessRecord

namespace Machine
variable {x y : Machine}

/-- Two machines that differ in nothing but their policies and the marks that these make; the second
one makes none. -/
structure Alike (x y : Machine) : Prop where
  procs : y.procs = x.procs.map (·.unmarked)
  cpus : y.cpus = x.cpus
  timeline : y.timeline = x.timeline
  trace : y.trace = x.trace
  now : y.now = x.now
  completed : y.completed = x.completed

namespace Alike
variable (alike : Alike x y)
include alike

theorem held_eq : y.held = x.held := by
  unfold held
  rw [alike.cpus]

theorem isIdleAt_eq : y.isIdleAt = x.isIdleAt := by
  unfold isIdleAt
  rw [alike.cpus]

theorem getElem?_procs (slot : Nat) : y.procs[slot]? = x.procs[slot]?.map (·.unmarked) := by
  rw [alike.procs, List.getElem?_map]

theorem jobs_eq : y.jobs = x.jobs := by
  simp [jobs, alike.procs, Function.comp_def]

theorem occupancy_eq : y.occupancy = x.occupancy := by
  have running : y.running = x.running := running_eq_of_held_eq alike.jobs_eq alike.held_eq
  rw [Machine.occupancy_eq, Machine.occupancy_eq, running, alike.cpus]

theorem allFinished_eq : y.allFinished = x.allFinished := by
  simp [allFinished, alike.procs, alike.completed]

theorem occupant?_eq (cpu : Nat) :
    y.occupant? cpu = (x.occupant? cpu).map fun e => (e.1, e.2.unmarked) := by
  cases holds : x.held cpu with
  | none =>
    rw [occupant?_eq_none holds, occupant?_eq_none (alike.held_eq ▸ holds)]
    rfl
  | some slot =>
    have holds' : y.held cpu = some slot := alike.held_eq ▸ holds
    simp only [held] at holds holds'
    simp only [occupant?, holds, holds', Option.bind_some, alike.getElem?_procs, Option.map_map]
    rfl

/-! One tick. -/

theorem enrolled (unmarked : y.policy.algorithm.marksReady = false) :
    Alike x.enrolled y.enrolled := by
  refine ⟨?_, alike.cpus, alike.timeline, alike.trace, alike.now, alike.completed⟩
  have kept : ∀ p : ProcessRecord, p.enroll y.policy.algorithm y.now = p := by
    simp [ProcessRecord.enroll, unmarked]
  simp [procs_enrolled, kept, alike.procs, ProcessRecord.unmarked_enroll]

theorem dispatch (cpu slot : Nat) : Alike (x.dispatch cpu slot) (y.dispatch cpu slot) := by
  cases found : x.procs[slot]? with
  | none =>
    have absent : y.procs[slot]? = none := by rw [alike.getElem?_procs, found, Option.map_none]
    simp only [Machine.dispatch, found, absent]
    exact alike
  | some p =>
    have found' : y.procs[slot]? = some p.unmarked := by
      rw [alike.getElem?_procs, found, Option.map_some]
    rw [dispatch_eq x cpu slot found, dispatch_eq y cpu slot found']
    refine ⟨?_, ?_, alike.timeline, ?_, alike.now, alike.completed⟩ <;>
      simp [alike.procs, alike.cpus, alike.trace, alike.now, List.map_set,
        ProcessRecord.unmarked_dispatch]

theorem snapshot : Alike x.snapshot y.snapshot := by
  refine ⟨alike.procs, alike.cpus, ?_, alike.trace, alike.now, alike.completed⟩
  simp [Machine.snapshot, alike.occupancy_eq, alike.timeline, alike.now]

theorem ageWaiting : Alike x.ageWaiting y.ageWaiting := by
  refine ⟨?_, alike.cpus, alike.timeline, alike.trace, alike.now, alike.completed⟩
  simp [Machine.ageWaiting, alike.procs, alike.now, ProcessRecord.unmarked_ageWaiting]

theorem workAt (cpu : Nat) : Alike (workAt cpu x) (workAt cpu y) := by
  have occupied' := alike.occupant?_eq cpu
  cases occupied : x.occupant? cpu with
  | none =>
    rw [occupied] at occupied'
    rw [workAt_of_vacant occupied, workAt_of_vacant occupied', alike.cpus]
    exact ⟨alike.procs, rfl, alike.timeline, alike.trace, alike.now, alike.completed⟩
  | some e =>
    obtain ⟨slot, p⟩ := e
    rw [occupied, Option.map_some] at occupied'
    obtain ⟨holds, found⟩ := occupant?_eq_some.1 occupied
    obtain ⟨holds', found'⟩ := occupant?_eq_some.1 occupied'
    rw [workAt_of_held holds found, workAt_of_held holds' found']
    dsimp only
    rw [p.remaining_unmarked]
    have procs : y.procs.set slot (p.unmarked.work y.now) =
        (x.procs.set slot (p.work x.now)).map (·.unmarked) := by
      rw [alike.procs, alike.now, List.map_set, p.unmarked_work]
    split
    · refine ⟨procs, ?_, alike.timeline, ?_, alike.now, ?_⟩ <;>
        simp [retire, alike.cpus, alike.trace, alike.now, alike.completed]
    · exact ⟨procs, by rw [alike.cpus], alike.timeline, alike.trace, alike.now, alike.completed⟩

theorem work : Alike x.work y.work := by
  unfold Machine.work atEachCpu
  rw [alike.cpus]
  exact List.foldl_rel alike fun cpu _ _ _ so_far => so_far.workAt cpu

omit alike in
/-- Machines that are alike at the row of a tick are alike after the tick. -/
theorem step (occupied : Alike x.occupied y.occupied) : Alike x.step y.step := by
  have worked : Alike x.worked y.worked := occupied.snapshot.ageWaiting.work
  exact ⟨worked.procs, worked.cpus, worked.timeline, worked.trace, congrArg (· + 1) worked.now,
    worked.completed⟩

end Alike

/-! Runs. -/

/-- If one simulation has finished where another one has, some ticks later, and not before these
ticks, and may take as many ticks more, it stops as many ticks later. -/
theorem simulate_later (d d' : Discipline) {s s' : Scenario} {delay : Nat}
    (bound : s'.bound = s.bound + delay)
    (early : ∀ i < delay, ((begun d' s').steps i).allFinished = false)
    (together : ∀ n, ((begun d' s').steps (delay + n)).allFinished =
      ((begun d s).steps n).allFinished) :
    ∃ k, simulate d s =
        ⟨d, ((begun d s).steps k).conclude s.bound, ((begun d s).steps k).ending s.bound⟩ ∧
      simulate d' s' = ⟨d', ((begun d' s').steps (delay + k)).conclude s'.bound,
        ((begun d' s').steps (delay + k)).ending s'.bound⟩ := by
  obtain ⟨k, upto, outcome, busy, stop⟩ := simulate_eq d s
  obtain ⟨k', upto', outcome', busy', stop'⟩ := simulate_eq d' s'
  have later : delay ≤ k' := by
    rcases stop' with reached | done
    · omega
    · by_contra before
      rw [early k' (Nat.lt_of_not_le before)] at done
      cases done
  obtain ⟨more, rfl⟩ := Nat.exists_eq_add_of_le later
  -- from there on both are done in the same ticks
  have same : k = more := by
    simp only [← together] at busy stop
    have cut := stop_eq_min (Nat.le_refl s.bound) upto busy
      (fun i before => busy' _ (Nat.add_lt_add_left before _)) stop
      (stop'.imp_left fun reached => by omega)
    omega
  subst same
  exact ⟨k, outcome, outcome'⟩

/-- If two simulations of a scenario have finished in the same ticks, they stop after the same
number of ticks. -/
theorem simulate_together (d d' : Discipline) (s : Scenario)
    (together : ∀ n, ((begun d s).steps n).allFinished = ((begun d' s).steps n).allFinished) :
    ∃ k, simulate d s =
        ⟨d, ((begun d s).steps k).conclude s.bound, ((begun d s).steps k).ending s.bound⟩ ∧
      simulate d' s =
        ⟨d', ((begun d' s).steps k).conclude s.bound, ((begun d' s).steps k).ending s.bound⟩ := by
  have same := simulate_later d d' (Nat.add_zero s.bound).symm nofun fun n => by
    rw [Nat.zero_add, together]
  simpa only [Nat.zero_add] using same

end Machine

/-- Two runs that nothing but the ready mark tells apart: each process has run, waited and finished
alike, the processors have counted the same, and so the timelines, traces and ends agree. -/
structure Outcome.Agrees (o o' : Outcome) : Prop where
  records : o.machine.procs.map (·.unmarked) = o'.machine.procs.map (·.unmarked)
  cpus : o.machine.cpus = o'.machine.cpus
  timeline : o.machine.timeline = o'.machine.timeline
  trace : o.machine.trace = o'.machine.trace
  totalTicks : o.totalTicks = o'.totalTicks
  ending : o.ending = o'.ending

namespace Machine

/-- Simulations whose machines are alike after every tick agree. -/
theorem simulate_agrees {d d' : Discipline} {s : Scenario}
    (alike : ∀ n, Alike ((begun d s).steps n) ((begun d' s).steps n)) :
    (simulate d s).Agrees (simulate d' s) := by
  obtain ⟨k, outcome, outcome'⟩ := simulate_together d d' s fun n => (alike n).allFinished_eq.symm
  rw [outcome, outcome']
  refine ⟨?_, (alike k).cpus.symm, (alike k).timeline.symm, (alike k).trace.symm,
    (alike k).now.symm, ?_⟩
  · simp [conclude, (alike k).procs]
  · simp only [ending, (alike k).allFinished_eq]

theorem alike_begun (d d' : Discipline) (s : Scenario) : Alike (begun d s) (begun d' s) := by
  refine ⟨?_, rfl, rfl, rfl, rfl, rfl⟩
  have waits : ∀ job : Job, job.toRecord.unmarked = job.toRecord := by
    simp [ProcessRecord.unmarked, Job.toRecord]
  show ProcessTable.ofJobs s.jobs = (ProcessTable.ofJobs s.jobs).map (·.unmarked)
  simp [ProcessTable.ofJobs, waits]

/-- A policy that marks arrivals has marked all of them once those of the tick are in. -/
theorem AtRest.marked_enrolled {m : Machine} (rest : AtRest m)
    (marks : m.policy.algorithm.marksReady = true)
    (before : ∀ p ∈ m.procs, p.arrival < m.now → p.status ≠ .waiting) :
    ∀ p ∈ m.enrolled.procs, p.arrival ≤ m.now → p.status ≠ .waiting := by
  intro q member arrived
  rw [procs_enrolled] at member
  obtain ⟨p, in_table, rfl⟩ := List.mem_map.1 member
  rw [p.arrival_enroll] at arrived
  rcases Nat.lt_or_eq_of_le arrived with early | at_once
  · have marked := before p in_table early
    rcases p.enroll_cases m.policy.algorithm m.now with same | ⟨waits, -⟩
    · rwa [same]
    · exact absurd waits marked
  · have fresh := rest.untouched p in_table at_once.ge
    have waits : p.status = .waiting := by rw [fresh]; rfl
    simp [ProcessRecord.enroll, marks, ProcessRecord.becomeReady, at_once, waits]

/-! Policies that mark nobody take no processor away. -/
section Unmarked
variable {m : Machine}

/-- Only dispatches and completions. -/
def Uninterrupted (trace : Trace) : Prop :=
  ∀ e ∈ trace.toList, e.kind = .dispatched ∨ e.kind = .completed

theorem AtRest.uninterrupted_step (rest : AtRest m)
    (unmarked : m.policy.algorithm.marksReady = false) (before : Uninterrupted m.trace) :
    Uninterrupted m.step.trace := by
  obtain ⟨later, grown, completed⟩ := rest.grows_occupied
  have filling := trace_occupyThese rest.consistent_rescheduled
    (List.nodup_range (n := m.rescheduled.cpus.size))
  have enrolled : m.rescheduled.trace = m.trace := by rw [rescheduled_of_unmarked unmarked]; rfl
  intro e member
  rw [grown, List.mem_append] at member
  rcases member with at_row | late
  · have split : e ∈ m.rescheduled.trace.toList ++ _ := filling ▸ at_row
    rw [enrolled, List.mem_append] at split
    rcases split with old | filled
    · exact before e old
    · obtain ⟨cpu, slot, job, -, -, rfl⟩ := mem_dispatches.1 filled
      exact .inl rfl
  · exact .inr (completed e late).2

theorem AtRest.uninterrupted_steps (rest : AtRest m)
    (unmarked : m.policy.algorithm.marksReady = false) (before : Uninterrupted m.trace) (n : Nat) :
    Uninterrupted (m.steps n).trace := by
  induction n with
  | zero => exact before
  | succ n ih =>
    rw [steps_succ]
    exact (rest.steps n).uninterrupted_step (rest.algorithm_steps n ▸ unmarked) ih

theorem uninterrupted_simulate {d : Discipline} (unmarked : d.algorithm.marksReady = false)
    (s : Scenario) : Uninterrupted (simulate d s).machine.trace := by
  obtain ⟨k, -, outcome, -⟩ := simulate_eq d s
  have start : (begun d s).policy.algorithm.marksReady = false := by
    rw [← unmarked]
    exact congrArg Algorithm.marksReady (Policy.algorithm_start d.quantum d.algorithm)
  rw [outcome]
  exact (atRest_begun d s).uninterrupted_steps start nofun k

end Unmarked

end Machine
end CpuScheduling
