import CpuScheduling.Proofs.FirstCome
import Mathlib.Data.List.Forall2
/-!
Relief. First come, first served knows no anomalies: with shorter bursts or more processors nobody
starts or finishes later. The places where the jobs run may all be others; what carries over from
one placement to the next is that at any later tick at least as many processors are free.
-/
namespace CpuScheduling

/-- The same job with no more work. -/
structure Job.EasedBy (j j' : Job) : Prop where
  arrival : j'.arrival = j.arrival
  priority : j'.priority = j.priority
  burst : j'.burst ≤ j.burst

/-- The same place in line for a job with no more work. -/
def Eased (e e' : Job × Nat) : Prop := e'.2 = e.2 ∧ e.1.EasedBy e'.1

/-- The same job placed no later. -/
structure Placement.NoLater (p p' : Placement) : Prop where
  slot : p'.slot = p.slot
  start : p'.start ≤ p.start
  finish : p'.finish ≤ p.finish

/-- At any tick from one on, no fewer processors of the second pool are free than of the first. -/
def FreeSooner (since : Nat) (free free' : List Nat) : Prop :=
  ∀ t ≥ since, (free.countP fun f => decide (f ≤ t)) ≤ free'.countP fun f => decide (f ≤ t)

variable {free free' : List Nat} {since : Nat} {e e' : Job × Nat} {line line' : List (Job × Nat)}

theorem FreeSooner.mono (sooner : FreeSooner since free free') {later : Nat} (le : since ≤ later) :
    FreeSooner later free free' := fun t after => sooner t (Nat.le_trans le after)

/-! One placement. -/

theorem start_place_le_iff (some_cpu : free ≠ []) (e : Job × Nat) (t : Nat) :
    (place free e).start ≤ t ↔
      e.1.arrival ≤ t ∧ 0 < free.countP fun f => decide (f ≤ t) := by
  obtain ⟨soonest, member, least, start⟩ := exists_soonest some_cpu
  rw [start, Nat.max_le, List.countP_pos_iff]
  refine and_congr_right fun _ => ⟨fun upto => ⟨soonest, member, decide_eq_true upto⟩, ?_⟩
  rintro ⟨f, inside, upto⟩
  exact Nat.le_trans (least f inside) (of_decide_eq_true upto)

/-- A placement takes one processor from those that are free from its start on, and gives it back at
its finish. -/
theorem countP_place_add (some_cpu : free ≠ []) (e : Job × Nat) {t : Nat}
    (started : (place free e).start ≤ t) :
    ((free.set (place free e).cpu (place free e).finish).countP fun f => decide (f ≤ t)) + 1 =
      (free.countP fun f => decide (f ≤ t)) + if (place free e).finish ≤ t then 1 else 0 := by
  obtain ⟨f, found, upto⟩ := exists_free_at_start some_cpu e
  have counts := Machine.countP_set_add (fun f => decide (f ≤ t)) found (place free e).finish
  rw [if_pos (decide_eq_true (Nat.le_trans upto started))] at counts
  simpa only [decide_eq_true_eq] using counts

/-- Before its start, if that is later than the arrival, no processor is free, with or without the
placement. -/
theorem countP_place_eq_zero (some_cpu : free ≠ []) (e : Job × Nat) {t : Nat}
    (arrived : e.1.arrival ≤ t) (early : t < (place free e).start) :
    ((free.set (place free e).cpu (place free e).finish).countP fun f => decide (f ≤ t)) = 0 := by
  have none_free : (free.countP fun f => decide (f ≤ t)) = 0 := by
    by_contra some_free
    have started := (start_place_le_iff some_cpu e t).2 ⟨arrived, Nat.pos_of_ne_zero some_free⟩
    exact Nat.not_lt_of_le started early
  refine List.countP_eq_zero.2 fun f member => ?_
  rcases List.mem_or_eq_of_mem_set member with old | rfl
  · exact List.countP_eq_zero.1 none_free f old
  · have later : (place free e).start ≤ (place free e).finish := Nat.le_add_right _ _
    simp only [decide_eq_true_eq]
    omega

section Place
variable (sooner : FreeSooner e.1.arrival free free') (eased : Eased e e') (some_cpu : free ≠ [])
  (some_cpu' : free' ≠ [])
include sooner eased some_cpu some_cpu'

theorem FreeSooner.noLater : (place free e).NoLater (place free' e') := by
  have arrived : e.1.arrival ≤ (place free e).start := Nat.le_max_left _ _
  have start : (place free' e').start ≤ (place free e).start := by
    obtain ⟨-, some_free⟩ := (start_place_le_iff some_cpu e _).1 (Nat.le_refl _)
    refine (start_place_le_iff some_cpu' e' _).2 ⟨eased.2.arrival.trans_le arrived, ?_⟩
    exact Nat.lt_of_lt_of_le some_free (sooner _ arrived)
  exact ⟨eased.1, start, Nat.add_le_add start eased.2.burst⟩

theorem FreeSooner.place : FreeSooner e.1.arrival
    (free.set (place free e).cpu (place free e).finish)
    (free'.set (place free' e').cpu (place free' e').finish) := by
  intro t arrived
  have next := sooner.noLater eased some_cpu some_cpu'
  rcases Nat.lt_or_ge t (CpuScheduling.place free e).start with early | started
  · rw [countP_place_eq_zero some_cpu e arrived early]
    exact Nat.zero_le _
  · have counts := countP_place_add some_cpu e started
    have counts' := countP_place_add some_cpu' e' (Nat.le_trans next.start started)
    have before := sooner t arrived
    have finish := next.finish
    split at counts <;> split at counts' <;> omega

end Place

/-! The whole line. -/

/-- Jobs that stand in the same line with no more work are placed no later, one by one. -/
theorem schedule_noLater (eased : List.Forall₂ Eased line line')
    (sorted : line.Pairwise StandsBefore) (arrivals : ∀ e ∈ line, since ≤ e.1.arrival)
    (some_cpu : free ≠ []) (some_cpu' : free' ≠ []) (sooner : FreeSooner since free free') :
    List.Forall₂ Placement.NoLater (schedule free line) (schedule free' line') := by
  induction eased generalizing free free' since with
  | nil => exact .nil
  | @cons e e' line line' head _ ih =>
    obtain ⟨before, sorted⟩ := List.pairwise_cons.1 sorted
    have sooner := sooner.mono (arrivals e List.mem_cons_self)
    refine .cons (sooner.noLater head some_cpu some_cpu') (ih sorted (fun x behind => ?_) ?_ ?_
      (sooner.place head some_cpu some_cpu'))
    · exact (before x behind).elim Nat.le_of_lt fun tied => Nat.le_of_eq tied.1
    · simpa using some_cpu
    · simpa using some_cpu'

/-! The line depends on arrivals, priorities and slots only. -/

theorem Eased.standsBefore_iff {a a' b b' : Job × Nat} (first : Eased a a') (second : Eased b b') :
    StandsBefore a' b' ↔ StandsBefore a b := by
  obtain ⟨slot, job⟩ := first
  obtain ⟨slot', job'⟩ := second
  simp only [StandsBefore, slot, slot', job.arrival, job'.arrival, job.priority, job'.priority]

theorem Eased.orderedInsert (head : Eased e e') (eased : List.Forall₂ Eased line line') :
    List.Forall₂ Eased (line.orderedInsert StandsBefore e)
      (line'.orderedInsert StandsBefore e') := by
  induction eased with
  | nil => exact .cons head .nil
  | @cons x x' line line' next rest ih =>
    simp only [List.orderedInsert_cons, head.standsBefore_iff next]
    split
    next => exact .cons head (.cons next rest)
    next => exact .cons next ih

theorem eased_zipIdx {jobs jobs' : List Job} (eased : List.Forall₂ Job.EasedBy jobs jobs')
    (k : Nat) : List.Forall₂ Eased (jobs.zipIdx k) (jobs'.zipIdx k) := by
  induction eased generalizing k with
  | nil => exact .nil
  | cons head _ ih => exact .cons ⟨rfl, head⟩ (ih (k + 1))

theorem eased_insertionSort (eased : List.Forall₂ Eased line line') :
    List.Forall₂ Eased (line.insertionSort StandsBefore) (line'.insertionSort StandsBefore) := by
  induction eased with
  | nil => exact .nil
  | cons head _ ih => exact head.orderedInsert ih

theorem inLine_eased {jobs jobs' : List Job} (eased : List.Forall₂ Job.EasedBy jobs jobs') :
    List.Forall₂ Eased (inLine jobs) (inLine jobs') := eased_insertionSort (eased_zipIdx eased 0)

/-- A line of jobs with no more work, on no fewer processors, is placed no later. -/
theorem listSchedule_noLater {s s' : Scenario} (eased : List.Forall₂ Job.EasedBy s.jobs s'.jobs)
    (cpus : s.cpus ≤ s'.cpus) :
    List.Forall₂ Placement.NoLater s.listSchedule s'.listSchedule := by
  have some_cpu : ∀ z : Scenario, List.replicate z.cpus 0 ≠ [] := fun z =>
    mt (List.replicate_eq_nil_iff _).1 z.cpus_pos.ne'
  refine schedule_noLater (inLine_eased eased) (pairwise_inLine s.jobs)
    (fun e _ => Nat.zero_le e.1.arrival) (some_cpu s) (some_cpu s') fun t _ => ?_
  simpa [List.countP_replicate] using cpus

theorem exists_noLater {plan plan' : List Placement}
    (relief : List.Forall₂ Placement.NoLater plan plan') {p' : Placement} (member : p' ∈ plan') :
    ∃ p ∈ plan, p.NoLater p' := by
  induction relief with
  | nil => cases member
  | cons head _ ih =>
    rcases List.mem_cons.1 member with rfl | behind
    · exact ⟨_, List.mem_cons_self, head⟩
    · obtain ⟨p, inside, later⟩ := ih behind
      exact ⟨p, List.mem_cons_of_mem _ inside, later⟩

theorem burst_pos_of_eased {jobs jobs' : List Job} (eased : List.Forall₂ Job.EasedBy jobs jobs')
    (bursts : ∀ job ∈ jobs', 0 < job.burst) : ∀ job ∈ jobs, 0 < job.burst := by
  induction eased with
  | nil => exact nofun
  | cons head _ ih =>
    obtain ⟨first, others⟩ := List.forall_mem_cons.1 bursts
    exact List.forall_mem_cons.2 ⟨Nat.lt_of_lt_of_le first head.burst, ih others⟩

/-! Runs. -/

/-- Two records of processes that have finished, the second one with no later times. -/
def ProcessRecord.NoLater (p p' : ProcessRecord) : Prop :=
  ∃ t t' e e', p.start = some t ∧ p'.start = some t' ∧ t' ≤ t ∧
    p.finish = some e ∧ p'.finish = some e' ∧ e' ≤ e

namespace Machine

/-- When the last finish of a plan is behind, all processes have completed. -/
theorem Tracks.completed_of_past {m : Machine} {plan : List Placement} (t : Tracks plan m.now m)
    (past : ∀ p ∈ plan, p.finish ≤ m.now) : ∀ r ∈ m.procs, r.status = .completed := by
  obtain ⟨done, free, line, rfl, f, late⟩ := t
  intro r member
  obtain ⟨slot, found⟩ := List.mem_iff_getElem?.1 member
  have inside : slot < m.procs.length := (List.getElem?_eq_some_iff.1 found).1
  rcases f.covered slot inside with ⟨p, placed, rfl⟩ | ⟨e, stands, rfl⟩
  · obtain ⟨r', found', -, -, -, state⟩ := f.placed p placed
    obtain rfl : r = r' := Option.some.inj (found.symm.trans found')
    rcases state with ⟨-, work_left, ends⟩ | ⟨completed, -⟩
    · have ended := past p (List.mem_append_left _ placed)
      omega
    · exact completed
  -- who still stands in line is to start now or later
  · exfalso
    obtain ⟨r', -, job, -, -, whole, work_left⟩ := f.pending e stands
    obtain ⟨p, planned, rfl⟩ : ∃ p ∈ schedule free line, (p.job, p.slot) = e := by
      rw [← map_entry_schedule free line] at stands
      exact List.mem_map.1 stands
    have burst : r'.burst = p.job.burst := congrArg (·.burst) job
    have starts := late p planned
    have ends := past p (List.mem_append_right _ planned)
    rw [Placement.finish] at ends
    omega

/-- Whoever has completed was placed, and has its times from there. -/
theorem times_of_completed {s : Scenario} (bursts : ∀ job ∈ s.jobs, 0 < job.burst) (quantum : Nat) :
    let o := simulate ⟨.fcfs, quantum⟩ s
    o.ending = .completed → ∀ p ∈ s.listSchedule, ∃ r, o.machine.procs[p.slot]? = some r ∧
      r.start = some p.start ∧ r.finish = some p.finish ∧ p.finish ≤ o.totalTicks := by
  let d : Discipline := ⟨.fcfs, quantum⟩
  intro o completed
  obtain ⟨k, -, outcome, -⟩ := simulate_eq d s
  have ended : o = _ := outcome
  rw [ended] at completed ⊢
  have rest := atRest_begun d s
  have size : 0 < (begun d s).cpus.size := size_cpus_begun d s ▸ s.cpus_pos
  have all := (rest.steps k).allFinished_iff.1 (ending_eq_completed_iff.1 completed)
  intro p planned
  obtain ⟨r, found, -, start, finish, past⟩ :=
    (((tracks_begun d s bursts).steps rest rfl k size).ended all).2 p planned
  exact ⟨r, found, start, finish, past⟩

/-- A run of which the whole plan is behind at some tick has not gone on after it, and has completed
if it may take as long. -/
theorem completed_of_past {s : Scenario} (bursts : ∀ job ∈ s.jobs, 0 < job.burst) (quantum : Nat)
    {k : Nat} (past : ∀ p ∈ s.listSchedule, p.finish ≤ k) :
    let o := simulate ⟨.fcfs, quantum⟩ s
    o.totalTicks ≤ k ∧ (k ≤ s.bound → o.ending = .completed) := by
  let d : Discipline := ⟨.fcfs, quantum⟩
  obtain ⟨k', -, outcome, busy, stop⟩ := simulate_eq d s
  have rest := atRest_begun d s
  have size : 0 < (begun d s).cpus.size := size_cpus_begun d s ▸ s.cpus_pos
  have now : ∀ n, ((begun d s).steps n).now = n := fun n => (rest.now_steps n).trans (Nat.zero_add n)
  have done : ((begun d s).steps k).allFinished = true := by
    refine (rest.steps k).allFinished_iff.2 ?_
    exact ((tracks_begun d s bursts).steps rest rfl k size).completed_of_past (by rwa [now k])
  have soon : k' ≤ k := by
    by_contra late
    rw [busy k (Nat.lt_of_not_le late)] at done
    cases done
  intro o
  have ended : o = _ := outcome
  rw [ended]
  refine ⟨(now k').trans_le soon, fun allowed => ending_eq_completed_iff.2 ?_⟩
  rcases stop with reached | done'
  · rwa [show k' = k by omega]
  · exact done'

/-- Under first come, first served, with no more work for any process and no fewer processors, a
run that may take as long completes if the other has, no later, and every process starts and
finishes no later than there. -/
theorem relief_delays_nobody (s s' : Scenario) (bursts : ∀ job ∈ s'.jobs, 0 < job.burst)
    (eased : List.Forall₂ Job.EasedBy s.jobs s'.jobs) (cpus : s.cpus ≤ s'.cpus)
    (quantum quantum' : Nat) :
    let o := simulate ⟨.fcfs, quantum⟩ s
    let o' := simulate ⟨.fcfs, quantum'⟩ s'
    o.ending = .completed → (o.totalTicks ≤ s'.bound → o'.ending = .completed) ∧
      (o'.ending = .completed → o'.totalTicks ≤ o.totalTicks ∧
        List.Forall₂ ProcessRecord.NoLater o.machine.procs o'.machine.procs) := by
  intro o o' completed
  have relief := listSchedule_noLater eased cpus
  have times := times_of_completed (burst_pos_of_eased eased bursts) quantum completed
  have past : ∀ p' ∈ s'.listSchedule, p'.finish ≤ o.totalTicks := by
    intro p' member
    obtain ⟨p, planned, later⟩ := exists_noLater relief member
    obtain ⟨-, -, -, -, past⟩ := times p planned
    exact Nat.le_trans later.finish past
  obtain ⟨soon, completes⟩ := completed_of_past bursts quantum' past
  refine ⟨completes, fun completed' => ⟨soon, ?_⟩⟩
  have times' := times_of_completed bursts quantum' completed'
  have length : o.machine.procs.length = s.jobs.length := length_procs_simulate _ s
  have length' : o'.machine.procs.length = s'.jobs.length := length_procs_simulate _ s'
  have same : o.machine.procs.length = o'.machine.procs.length := by
    rw [length, length', eased.length_eq]
  refine List.forall₂_iff_get.2 ⟨same, fun slot bound bound' => ?_⟩
  have placed : slot ∈ s'.listSchedule.map (·.slot) :=
    (listSchedule_perm s').mem_iff.2 (List.mem_range.2 (length' ▸ bound'))
  obtain ⟨p', planned', rfl⟩ := List.mem_map.1 placed
  obtain ⟨p, planned, later⟩ := exists_noLater relief planned'
  obtain ⟨r, found, start, finish, -⟩ := times p planned
  obtain ⟨r', found', start', finish', -⟩ := times' p' planned'
  rw [← later.slot, List.getElem?_eq_getElem bound] at found
  rw [List.getElem?_eq_getElem bound'] at found'
  obtain rfl := Option.some.inj found
  obtain rfl := Option.some.inj found'
  exact ⟨p.start, p'.start, p.finish, p'.finish, start, start', later.start, finish, finish',
    later.finish⟩

/-- One processor more than for the tied arrivals, and less work for the first process. -/
def relievedArrivals : Scenario :=
  { cpus := 3, cpus_pos := Nat.succ_pos 2, jobs := [⟨1, 0, 1, 0⟩, ⟨2, 0, 2, 1⟩, ⟨3, 1, 1, 0⟩] }

/-- The third process starts earlier, on another processor. -/
theorem relief_delays_nobody_elsewhere :
    let o := simulate ⟨.fcfs, 2⟩ tiedArrivals
    let o' := simulate ⟨.fcfs, 1⟩ relievedArrivals
    (∀ job ∈ relievedArrivals.jobs, 0 < job.burst) ∧
      List.Forall₂ Job.EasedBy tiedArrivals.jobs relievedArrivals.jobs ∧
      tiedArrivals.cpus ≤ relievedArrivals.cpus ∧ o.ending = .completed ∧
      o'.ending = .completed ∧ o'.totalTicks ≤ o.totalTicks ∧
      List.Forall₂ ProcessRecord.NoLater o.machine.procs o'.machine.procs ∧
      o.occupantAt 2 0 = some 3 ∧ o'.occupantAt 1 1 = some 3 := by
  intro o o'
  have bursts : ∀ job ∈ relievedArrivals.jobs, 0 < job.burst := by decide
  have eased : List.Forall₂ Job.EasedBy tiedArrivals.jobs relievedArrivals.jobs :=
    .cons ⟨rfl, rfl, by decide⟩ (.cons ⟨rfl, rfl, by decide⟩ (.cons ⟨rfl, rfl, by decide⟩ .nil))
  have cpus : tiedArrivals.cpus ≤ relievedArrivals.cpus := by decide
  have completed : o.ending = .completed := by decide +kernel
  have allowed : o.totalTicks ≤ relievedArrivals.bound := by decide +kernel
  obtain ⟨completes, times⟩ :=
    relief_delays_nobody tiedArrivals relievedArrivals bursts eased cpus 2 1 completed
  obtain ⟨ticks, later⟩ := times (completes allowed)
  exact ⟨bursts, eased, cpus, completed, completes allowed, ticks, later, by decide +kernel,
    by decide +kernel⟩

end Machine
end CpuScheduling
