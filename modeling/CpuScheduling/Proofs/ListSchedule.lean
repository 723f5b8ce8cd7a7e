import CpuScheduling.Scenario
import Mathlib.Data.List.Sort
/-!
List scheduling. The jobs stand in line by arrival, priority and place in the workload; one after
another gets the processor that is free for it first, and keeps it for its burst.
-/
namespace CpuScheduling

/-- Earlier arrival, then greater priority, then the smaller slot. -/
def StandsBefore (a b : Job × Nat) : Prop :=
  a.1.arrival < b.1.arrival ∨ a.1.arrival = b.1.arrival ∧
    (b.1.priority < a.1.priority ∨ a.1.priority = b.1.priority ∧ a.2 ≤ b.2)

instance : DecidableRel StandsBefore := fun _ _ => inferInstanceAs (Decidable (_ ∨ _))

instance : IsTrans (Job × Nat) StandsBefore := ⟨fun _ _ _ => by unfold StandsBefore; omega⟩

instance : Std.Total StandsBefore := ⟨fun _ _ => by unfold StandsBefore; omega⟩

/-- The jobs of a workload in line, each with its slot. -/
def inLine (jobs : List Job) : List (Job × Nat) := jobs.zipIdx.insertionSort StandsBefore

/-- The processor that a job gets, and the tick from which on. -/
structure Placement where
  job : Job
  slot : Nat
  cpu : Nat
  start : Nat
deriving DecidableEq

namespace Placement

def finish (p : Placement) : Nat := p.start + p.job.burst

/-- Whether the job has the processor in a tick. -/
def Covers (p : Placement) (tick cpu : Nat) : Prop :=
  p.cpu = cpu ∧ p.start ≤ tick ∧ tick < p.finish

end Placement

/-- A job starts when it has arrived and a processor is free, on the first one that is free then;
`free` has for each processor the tick from which on it is free. -/
def place (free : List Nat) (e : Job × Nat) : Placement :=
  let start := max e.1.arrival (free.min?.getD 0)
  ⟨e.1, e.2, free.findIdx fun f => decide (f ≤ start), start⟩

/-- The placements of a line of jobs, one after another. -/
def schedule (free : List Nat) : List (Job × Nat) → List Placement
  | [] => []
  | e :: line =>
    let p := place free e
    p :: schedule (free.set p.cpu p.finish) line

/-- All processors are free at first. -/
def Scenario.listSchedule (s : Scenario) : List Placement :=
  schedule (List.replicate s.cpus 0) (inLine s.jobs)

/-! The line. -/

theorem inLine_perm (jobs : List Job) : (inLine jobs).Perm jobs.zipIdx :=
  List.perm_insertionSort _ _

theorem pairwise_inLine (jobs : List Job) : (inLine jobs).Pairwise StandsBefore :=
  List.pairwise_insertionSort _ _

theorem nodup_inLine (jobs : List Job) : ((inLine jobs).map (·.2)).Nodup := by
  rw [((inLine_perm jobs).map _).nodup_iff, List.zipIdx_map_snd]
  exact List.nodup_range'

theorem mem_inLine {jobs : List Job} {job : Job} {slot : Nat} :
    (job, slot) ∈ inLine jobs ↔ jobs[slot]? = some job := by
  rw [(inLine_perm jobs).mem_iff, List.mk_mem_zipIdx_iff_getElem?]

/-! The placements. -/

/-- A job starts when it has arrived and the soonest processor is free. -/
theorem exists_soonest {free : List Nat} (some_cpu : free ≠ []) :
    ∃ soonest ∈ free, (∀ f ∈ free, soonest ≤ f) ∧
      ∀ e : Job × Nat, (place free e).start = max e.1.arrival soonest := by
  obtain ⟨soonest, least⟩ := Option.ne_none_iff_exists'.1 (mt List.min?_eq_none_iff.1 some_cpu)
  obtain ⟨member, lowest⟩ := List.min?_eq_some_iff.1 least
  refine ⟨soonest, member, lowest, fun e => ?_⟩
  show max e.1.arrival (free.min?.getD 0) = _
  rw [least, Option.getD_some]

/-- A job gets a processor that is free when it starts. -/
theorem exists_free_at_start {free : List Nat} (some_cpu : free ≠ []) (e : Job × Nat) :
    ∃ f, free[(place free e).cpu]? = some f ∧ f ≤ (place free e).start := by
  obtain ⟨soonest, member, -, start⟩ := exists_soonest some_cpu
  have upto : soonest ≤ (place free e).start := start e ▸ Nat.le_max_right _ _
  have inside : (place free e).cpu < free.length :=
    List.findIdx_lt_length_of_exists ⟨soonest, member, decide_eq_true upto⟩
  exact ⟨_, List.getElem?_eq_getElem inside, of_decide_eq_true (List.findIdx_getElem (w := inside))⟩

/-- The whole line is placed, in its order. -/
theorem map_entry_schedule (free : List Nat) (line : List (Job × Nat)) :
    (schedule free line).map (fun p => (p.job, p.slot)) = line := by
  induction line generalizing free with
  | nil => rfl
  | cons e line ih => exact congrArg (e :: ·) (ih _)

theorem map_slot_schedule (free : List Nat) (line : List (Job × Nat)) :
    (schedule free line).map (·.slot) = line.map (·.2) := by
  conv_rhs => rw [← map_entry_schedule free line, List.map_map]
  rfl

/-- Every job of a workload is placed once. -/
theorem listSchedule_perm (s : Scenario) :
    (s.listSchedule.map (·.slot)).Perm (List.range s.jobs.length) := by
  rw [Scenario.listSchedule, map_slot_schedule, List.range_eq_range', ← List.zipIdx_map_snd 0]
  exact (inLine_perm s.jobs).map _

theorem le_start_of_free {n : Nat} {free : List Nat} (some_cpu : free ≠ [])
    (taken : ∀ f ∈ free, n ≤ f) (line : List (Job × Nat)) :
    ∀ p ∈ schedule free line, n ≤ p.start := by
  induction line generalizing free with
  | nil => exact nofun
  | cons e line ih =>
    obtain ⟨soonest, member, -, start⟩ := exists_soonest some_cpu
    have late : n ≤ (place free e).start :=
      Nat.le_trans (taken soonest member) (start e ▸ Nat.le_max_right _ _)
    refine List.forall_mem_cons.2 ⟨late, ih (by simpa using some_cpu) fun f member => ?_⟩
    rcases List.mem_or_eq_of_mem_set member with old | rfl
    · exact taken f old
    · exact Nat.le_trans late (Nat.le_add_right _ _)

theorem le_start_of_arrival {n : Nat} {line : List (Job × Nat)}
    (late : ∀ e ∈ line, n ≤ e.1.arrival) (free : List Nat) :
    ∀ p ∈ schedule free line, n ≤ p.start := by
  induction line generalizing free with
  | nil => exact nofun
  | cons e line ih =>
    obtain ⟨first, others⟩ := List.forall_mem_cons.1 late
    exact List.forall_mem_cons.2 ⟨Nat.le_trans first (Nat.le_max_left _ _), ih others _⟩

/-- A job that has arrived when a processor is free is placed at once on the first free one, unless
it was to be placed before. -/
theorem place_eq {free : List Nat} {e : Job × Nat} {cpu f n : Nat} (found : free[cpu]? = some f)
    (at_once : f ≤ n) (taken : ∀ c < cpu, ∀ g, free[c]? = some g → n < g)
    (arrived : e.1.arrival ≤ n) (late : n ≤ (place free e).start) :
    place free e = ⟨e.1, e.2, cpu, n⟩ := by
  obtain ⟨inside, rfl⟩ := List.getElem?_eq_some_iff.1 found
  have some_cpu : free ≠ [] := List.ne_nil_of_length_pos (Nat.zero_lt_of_lt inside)
  obtain ⟨soonest, -, least, starts⟩ := exists_soonest some_cpu
  have upto : soonest ≤ n := Nat.le_trans (least _ (List.getElem_mem inside)) at_once
  have start : max e.1.arrival (free.min?.getD 0) = n :=
    Nat.le_antisymm ((starts e).trans_le (Nat.max_le.2 ⟨arrived, upto⟩)) late
  have first : free.findIdx (fun g => decide (g ≤ n)) = cpu := by
    refine (List.findIdx_eq inside).2 ⟨decide_eq_true at_once, fun c before => ?_⟩
    have busy := taken c before _ (List.getElem?_eq_getElem (Nat.lt_trans before inside))
    exact decide_eq_false (Nat.not_le_of_lt busy)
  rw [place, start, first]

end CpuScheduling
