import CpuScheduling.Workload.Pattern
import Mathlib.Logic.Function.Iterate
/-!
Patterns, place by place. Every pattern numbers its jobs from one on, and what the job at a place is
follows from the place alone. The jobs come in the order of their arrivals, but for those that are
drawn: these keep the ranges they are drawn from, and one seed puts the second job before the first
whatever the range of arrivals is.
-/
namespace CpuScheduling.Workload.Pattern
variable {p : Pattern} {n maxArrival maxBurst seed : Nat} {jobs : List Job}

/-- The identifiers are 1, 2, 3, … in list order. -/
def Numbered (jobs : List Job) : Prop :=
  jobs.map (·.pid) = (List.range jobs.length).map fun i : Nat => (i : Int) + 1

/-- No job arrives before one that stands ahead of it. -/
def InArrivalOrder (jobs : List Job) : Prop := jobs.Pairwise fun a b => a.arrival ≤ b.arrival

instance (jobs : List Job) : Decidable (Numbered jobs) := inferInstanceAs (Decidable (_ = _))

instance (jobs : List Job) : Decidable (InArrivalOrder jobs) :=
  inferInstanceAs (Decidable (jobs.Pairwise _))

/-- The numbers of a drawn job lie in their ranges. -/
structure Ranged (maxArrival maxBurst : Nat) (j : Job) : Prop where
  arrival : j.arrival ≤ maxArrival
  burst_pos : 1 ≤ j.burst
  burst : j.burst ≤ maxBurst
  priority_nonneg : 0 ≤ j.priority
  priority : j.priority ≤ 4

/-- There is something to draw: a burst, and arrivals within the clock. -/
def Drawable : Pattern → Prop
  | .drawn _ maxArrival maxBurst _ => maxArrival < lastTick ∧ 0 < maxBurst
  | .simultaneous .. | .spaced .. | .convoy .. => True

instance (p : Pattern) : Decidable p.Drawable :=
  match p with
  | .drawn .. => inferInstanceAs (Decidable (_ ∧ _))
  | .simultaneous .. | .spaced .. | .convoy .. => inferInstanceAs (Decidable True)

def size : Pattern → Nat
  | .simultaneous n _ | .spaced n _ _ | .drawn n _ _ _ => n
  | .convoy _ n _ => n + 1

/-- The `k`-th number drawn after a seed. -/
def drawnAt (seed k : Nat) : Nat := draw (nextState^[k] seed)

def arrivalAt : Pattern → Nat → Nat
  | .simultaneous .., _ => 0
  | .spaced _ _ gap, i => i * gap
  | .convoy .., i => i
  | .drawn _ maxArrival _ seed, i => drawnAt seed (3 * i + 1) % (maxArrival + 1)

def burstAt : Pattern → Nat → Nat
  | .simultaneous _ burst, _ | .spaced _ burst _, _ => burst
  | .convoy long _ short, i => if i = 0 then long else short
  | .drawn _ _ maxBurst seed, i => drawnAt seed (3 * i + 2) % maxBurst + 1

def priorityAt : Pattern → Nat → Int
  | .simultaneous .., _ | .spaced .., _ | .convoy .., _ => 0
  | .drawn _ _ _ seed, i => (drawnAt seed (3 * i + 3) % 5 : Nat)

/-- The jobs of a pattern, place by place. -/
def jobList (p : Pattern) : List Job :=
  (List.range p.size).map fun i => jobAt i (p.arrivalAt i) (p.burstAt i) (p.priorityAt i)

theorem drawnAt_one (seed : Nat) : drawnAt seed 1 = draw (nextState seed) := by
  rw [drawnAt, Function.iterate_one]

theorem drawnAt_two (seed : Nat) : drawnAt seed 2 = draw (nextState (nextState seed)) := by
  rw [drawnAt, Function.iterate_succ_apply, Function.iterate_one]

/-- Three numbers are drawn for each job. -/
theorem drawnAt_add_three (seed k : Nat) :
    drawnAt seed (k + 3) = drawnAt (nextState (nextState (nextState seed))) k := by
  rw [drawnAt, Function.iterate_succ_apply, Function.iterate_succ_apply,
    Function.iterate_succ_apply, drawnAt]

theorem drawnJobs_eq (maxArrival maxBurst n i seed : Nat) :
    drawnJobs maxArrival maxBurst n i seed = (List.range n).map fun k =>
      jobAt (i + k) (drawnAt seed (3 * k + 1) % (maxArrival + 1))
        (drawnAt seed (3 * k + 2) % maxBurst + 1) (drawnAt seed (3 * k + 3) % 5 : Nat) := by
  induction n generalizing i seed with
  | zero => rfl
  | succ n ih =>
    have third : drawnAt seed 3 = draw (nextState (nextState (nextState seed))) := by
      rw [← Nat.zero_add 3, drawnAt_add_three, drawnAt, Function.iterate_zero_apply]
    simp only [drawnJobs, ih, List.range_succ_eq_map, List.map_cons, List.map_map, Nat.mul_zero,
      Nat.zero_add, Nat.add_zero, drawnAt_one, drawnAt_two, third]
    refine congrArg _ (List.map_congr_left fun k _ => ?_)
    -- What is the draw `3 * k + r` after three states is the draw `3 * (k + 1) + r` before them.
    have place : i + 1 + k = i + k.succ := by omega
    have later : ∀ r, drawnAt seed (3 * k.succ + r) =
        drawnAt (nextState (nextState (nextState seed))) (3 * k + r) := fun r => by
      rw [← drawnAt_add_three, Nat.mul_succ, Nat.add_right_comm]
    rw [Function.comp_apply, later, later, later, place]

theorem jobs_eq (drawable : p.Drawable) : p.jobs = .ok p.jobList := by
  cases p with
  | simultaneous n burst | spaced n burst gap => rfl
  | convoy long n short =>
    rw [jobs, jobList, size, List.range_succ_eq_map, List.map_cons, List.map_map]
    rfl
  | drawn n maxArrival maxBurst seed =>
    obtain ⟨within, some_burst⟩ := drawable
    have clock : ¬(lastTick ≤ maxArrival ∧ 0 < n) := fun beyond => Nat.not_le_of_lt within beyond.1
    rw [jobs, if_neg (Nat.ne_of_gt some_burst), if_neg clock, drawnJobs_eq]
    simp only [Nat.zero_add]
    rfl

theorem length_jobList (p : Pattern) : p.jobList.length = p.size := by
  rw [jobList, List.length_map, List.length_range]

theorem numbered_jobList (p : Pattern) : Numbered p.jobList := by
  rw [Numbered, length_jobList, jobList, List.map_map]
  rfl

/-- The jobs are in order if arrivals do not fall from place to place. -/
theorem inArrivalOrder_jobList (grows : ∀ i j, i < j → j < p.size → p.arrivalAt i ≤ p.arrivalAt j) :
    InArrivalOrder p.jobList :=
  List.pairwise_map.2 (List.pairwise_lt_range.imp_of_mem fun _ inside before =>
    grows _ _ before (List.mem_range.1 inside))

theorem ranged_jobList (some_burst : 0 < maxBurst) :
    ∀ j ∈ (drawn n maxArrival maxBurst seed).jobList, Ranged maxArrival maxBurst j := by
  intro j member
  obtain ⟨i, -, rfl⟩ := List.mem_map.1 member
  refine ⟨Nat.le_of_lt_succ (Nat.mod_lt _ (Nat.succ_pos _)), Nat.succ_pos _,
    Nat.succ_le_of_lt (Nat.mod_lt _ some_burst), Int.natCast_nonneg _, ?_⟩
  have small : drawnAt seed (3 * i + 3) % 5 < 5 := Nat.mod_lt _ (by decide)
  show ((drawnAt seed (3 * i + 3) % 5 : Nat) : Int) ≤ 4
  omega

/-! Draws out of order. -/

/-- A seed whose first job is drawn one tick late, and whose second is drawn at tick zero. -/
def lateFirst : Nat := 10589518799543399927

theorem not_inArrivalOrder_lateFirst (several : 2 ≤ n) (range : 0 < maxArrival) :
    ¬InArrivalOrder (drawn n maxArrival maxBurst lateFirst).jobList := by
  intro ordered
  have first : (drawn n maxArrival maxBurst lateFirst).arrivalAt 0 = 1 := by
    have one : drawnAt lateFirst (3 * 0 + 1) = 1 := by decide
    rw [arrivalAt, one, Nat.mod_eq_of_lt (by omega)]
  have second : (drawn n maxArrival maxBurst lateFirst).arrivalAt 1 = 0 := by
    have zero : drawnAt lateFirst (3 * 1 + 1) = 0 := by decide
    rw [arrivalAt, zero, Nat.zero_mod]
  have places := List.pairwise_iff_getElem.1 (List.pairwise_map.1 ordered) 0 1
    (by rw [List.length_range]; exact Nat.lt_of_lt_of_le Nat.two_pos several)
    (by rw [List.length_range]; exact several) Nat.one_pos
  rw [List.getElem_range, List.getElem_range] at places
  have rises : (drawn n maxArrival maxBurst lateFirst).arrivalAt 0 ≤
      (drawn n maxArrival maxBurst lateFirst).arrivalAt 1 := places
  rw [first, second] at rises
  exact absurd rises (by decide)

/-- Drawn jobs are in order whatever the seed is only if there are not two of them, or if they can
arrive in one tick alone. -/
theorem drawn_inArrivalOrder_iff :
    (∀ seed, InArrivalOrder (drawn n maxArrival maxBurst seed).jobList) ↔
      n ≤ 1 ∨ maxArrival = 0 := by
  constructor
  · intro ordered
    by_contra mixed
    rw [not_or] at mixed
    exact not_inArrivalOrder_lateFirst (by omega) (by omega) (ordered lateFirst)
  · rintro (few | rfl) seed
    · exact inArrivalOrder_jobList fun i j before inside =>
        absurd (Nat.lt_of_lt_of_le inside few) (by omega)
    · exact inArrivalOrder_jobList fun i j _ _ =>
        Nat.le_of_eq ((Nat.mod_one _).trans (Nat.mod_one _).symm)

/-- Every pattern gives as many jobs as it says, numbered from one on. They come in the order of
their arrivals, unless they are drawn. Drawn jobs keep the ranges they are drawn from, and come in
order for every seed only if there are not two of them, or if all arrive in one tick. -/
theorem pattern_jobs (p : Pattern) (drawable : p.Drawable) :
    ∃ js, p.jobs = .ok js ∧ js.length = p.size ∧ Numbered js ∧
      match p with
      | .simultaneous .. | .spaced .. | .convoy .. => InArrivalOrder js
      | .drawn n maxArrival maxBurst _ => (∀ j ∈ js, Ranged maxArrival maxBurst j) ∧
        ((∀ seed js', (drawn n maxArrival maxBurst seed).jobs = .ok js' → InArrivalOrder js') ↔
          n ≤ 1 ∨ maxArrival = 0) := by
  refine ⟨p.jobList, jobs_eq drawable, length_jobList p, numbered_jobList p, ?_⟩
  cases p with
  | simultaneous n burst => exact inArrivalOrder_jobList fun _ _ _ _ => Nat.le_refl 0
  | spaced n burst gap =>
    exact inArrivalOrder_jobList fun i j before _ => Nat.mul_le_mul_right gap (Nat.le_of_lt before)
  | convoy long n short => exact inArrivalOrder_jobList fun i j before _ => Nat.le_of_lt before
  | drawn n maxArrival maxBurst seed =>
    refine ⟨ranged_jobList drawable.2, ?_⟩
    rw [← drawn_inArrivalOrder_iff]
    refine forall_congr' fun seed' => ?_
    have given : (drawn n maxArrival maxBurst seed').jobs = .ok _ := jobs_eq drawable
    rw [given]
    exact ⟨fun all => all _ rfl, fun ordered js' same => Except.ok.inj same ▸ ordered⟩

/-- Five drawn jobs. -/
theorem pattern_jobs_drawn :
    (drawn 5 10 8 42).Drawable ∧ ∃ js, (drawn 5 10 8 42).jobs = .ok js ∧ js.length = 5 ∧
      Numbered js ∧ ∀ j ∈ js, Ranged 10 8 j := by
  have drawable : (drawn 5 10 8 42).Drawable := by decide
  obtain ⟨js, given, length, numbered, ranged, -⟩ := pattern_jobs (drawn 5 10 8 42) drawable
  exact ⟨drawable, js, given, length, numbered, ranged⟩

/-- Of these five the last arrives before the one ahead of it. -/
theorem drawn_out_of_order :
    (drawn 5 10 8 42).Drawable ∧ ∃ js, (drawn 5 10 8 42).jobs = .ok js ∧ Numbered js ∧
      js.map (·.arrival) = [2, 9, 10, 10, 8] ∧ ¬InArrivalOrder js := by
  refine ⟨by decide, _, rfl, ?_, ?_, ?_⟩ <;> decide

end CpuScheduling.Workload.Pattern
