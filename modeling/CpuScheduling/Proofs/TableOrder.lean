import CpuScheduling.Proofs.Loads
import CpuScheduling.Proofs.Retold
/-!
The order of the table. Slots decide only between processes that tie, so a run in which no two tie
takes the same course whatever the order of its jobs is.
-/
namespace CpuScheduling

/-- The first slot stays, and those behind it are moved as before. -/
def liftPlaces (place : Equiv.Perm Nat) : Equiv.Perm Nat where
  toFun
    | 0 => 0
    | i + 1 => place i + 1
  invFun
    | 0 => 0
    | i + 1 => place.symm i + 1
  left_inv i := by cases i <;> simp
  right_inv i := by cases i <;> simp

/-- Lists that hold the same elements in another order differ by a move of the places. -/
theorem exists_place {α : Type} {l l' : List α} (permuted : l.Perm l') :
    ∃ place : Equiv.Perm Nat, ∀ i, l'[place i]? = l[i]? := by
  induction permuted with
  | nil => exact ⟨Equiv.refl Nat, fun _ => rfl⟩
  | cons a _ ih =>
    obtain ⟨place, moved⟩ := ih
    refine ⟨liftPlaces place, fun i => ?_⟩
    cases i with
    | zero => rfl
    | succ i => exact moved i
  | swap a b l =>
    refine ⟨Equiv.swap 0 1, fun i => ?_⟩
    match i with
    | 0 => simp
    | 1 => simp
    | i + 2 => rw [Equiv.swap_apply_of_ne_of_ne (by omega) (by omega)]; rfl
  | trans _ _ ih ih' =>
    obtain ⟨place, moved⟩ := ih
    obtain ⟨place', moved'⟩ := ih'
    exact ⟨place.trans place', fun i => by rw [Equiv.trans_apply, moved', moved]⟩

namespace Algorithm
variable (algorithm : Algorithm)

theorem ties_refl (a : Job) : algorithm.Ties a a := by
  cases algorithm <;> simp [Ties]

theorem ties_symm {a b : Job} (tied : algorithm.Ties a b) : algorithm.Ties b a := by
  cases algorithm <;> simp_all [Ties]

/-- Jobs of which no two tie. -/
def Untied (jobs : List Job) : Prop := jobs.Pairwise fun a b => ¬ algorithm.Ties a b

variable {algorithm}

theorem Untied.slot_eq {jobs : List Job} (untied : algorithm.Untied jobs) {i j : Nat} {a b : Job}
    (found : jobs[i]? = some a) (found' : jobs[j]? = some b) (tied : algorithm.Ties a b) :
    i = j := by
  obtain ⟨inside, rfl⟩ := List.getElem?_eq_some_iff.1 found
  obtain ⟨inside', rfl⟩ := List.getElem?_eq_some_iff.1 found'
  have apart := List.pairwise_iff_getElem.1 untied
  rcases Nat.lt_trichotomy i j with lt | same | gt
  · exact absurd tied (apart i j inside inside' lt)
  · exact same
  · exact absurd (algorithm.ties_symm tied) (apart j i inside' inside gt)

end Algorithm

namespace Scenario

theorem lastArrival_perm {jobs jobs' : List Job} (permuted : jobs.Perm jobs') :
    lastArrival jobs = lastArrival jobs' :=
  permuted.foldl_eq' (fun _ _ _ _ _ => by omega) 0

theorem bound_perm {s s' : Scenario} (permuted : s.jobs.Perm s'.jobs) (limit : s'.limit = s.limit) :
    s'.bound = s.bound := by
  have work : work s'.jobs = work s.jobs := (permuted.map Job.burst).sum_eq.symm
  have horizon : s'.horizon = s.horizon := by
    rw [horizon_eq, horizon_eq, span, span, work, lastArrival_perm permuted]
  rw [bound, bound, limit, horizon]

end Scenario

namespace Retelling

/-- Other slots only. -/
def moved (place : Equiv.Perm Nat) : Retelling := ⟨place, id, 0⟩

variable (place : Equiv.Perm Nat)

@[simp] theorem place_moved : (moved place).place = place := rfl

@[simp] theorem job_moved : (moved place).job = id := rfl

@[simp] theorem record_moved : (moved place).record = id := by
  funext p
  simp [record, moved, job]

@[simp] theorem event_moved : (moved place).event = id := rfl

@[simp] theorem row_moved : (moved place).row = id := by
  funext cells
  simp [row, moved]

@[simp] theorem cpu_moved (c : Cpu) :
    (moved place).cpu c = { c with current := c.current.map place } := rfl

@[simp] theorem ending_moved (e : Ending) : (moved place).ending e = e := by
  cases e <;> rfl

theorem rows_moved (width : Nat) (rows : Array (List Cell)) :
    (moved place).rows width rows = rows := by
  rw [Retelling.rows, row_moved, Array.map_id]
  exact Array.empty_append

end Retelling

theorem Timeline.Retold.eq_of_moved {place : Equiv.Perm Nat} {t t' : Timeline}
    (told : Retold (.moved place) t t') : t' = t := by
  have rows := told.rows
  rw [Retelling.rows_moved] at rows
  exact Timeline.ext_rows told.width (told.capacity rfl) rows

namespace Machine

/-- Two runs on the same jobs in different orders. Under first come, first served no two jobs share
arrival and priority, under shortest job first none share burst, priority and arrival, and under
round robin none share an arrival. Then both runs show the same rows, record the same events, count
the same ticks on each processor and end alike, and each job has the same record in both. -/
theorem table_order_irrelevant (d : Discipline) {s s' : Scenario}
    (permuted : s.jobs.Perm s'.jobs) (cpus : s'.cpus = s.cpus) (limit : s'.limit = s.limit)
    (untied : d.algorithm.Untied s.jobs) :
    let o := simulate d s
    let o' := simulate d s'
    o'.machine.timeline = o.machine.timeline ∧ o'.machine.trace = o.machine.trace ∧
      o'.machine.load = o.machine.load ∧ o'.totalTicks = o.totalTicks ∧ o'.ending = o.ending ∧
      o'.machine.dropped = o.machine.dropped ∧
      ∀ (slot slot' : Nat) (job : Job), s.jobs[slot]? = some job → s'.jobs[slot']? = some job →
        o'.machine.procs[slot']? = o.machine.procs[slot]? := by
  obtain ⟨place, moved⟩ := exists_place permuted
  have kept : (Retelling.moved place).KeepsTies d.algorithm s.jobs := by
    intro i j a b found found' tied before
    obtain rfl := untied.slot_eq found found' tied
    exact absurd before (Nat.lt_irrefl _)
  obtain ⟨told, ending⟩ := simulate_retold d (Scenario.bound_perm permuted limit) kept
    (retold_begun d cpus permuted.length_eq.symm (fun slot => by simpa using moved slot) rfl) nofun
  refine ⟨told.timeline.eq_of_moved, ?_, ?_, told.now, ?_, told.dropped, ?_⟩
  · rw [told.trace]
    simp
  · funext cpu
    simp [load, told.cpus, Function.comp_def]
  · rw [ending, Retelling.ending_moved]
  · intro slot slot' job found found'
    obtain ⟨source, rfl⟩ := place.surjective slot'
    rw [moved] at found'
    obtain rfl := untied.slot_eq found found' (d.algorithm.ties_refl job)
    simpa using told.procs slot

/-- Two processors and four jobs that arrive one after another, the last of them first in the
table. -/
def lastComesFirst : Scenario :=
  { cpus := 2, cpus_pos := Nat.two_pos
    jobs := [⟨4, 3, 1, 0⟩, ⟨3, 2, 2, 0⟩, ⟨2, 1, 4, 0⟩, ⟨1, 0, 3, 0⟩] }

/-- The queue holds other slots in the two runs, and yet the turns are the same. -/
theorem table_order_irrelevant_reversed :
    let s := lastComesFirst
    let s' : Scenario := { s with jobs := s.jobs.reverse }
    let o := simulate ⟨.roundRobin, 2⟩ s
    let o' := simulate ⟨.roundRobin, 2⟩ s'
    s.jobs.Perm s'.jobs ∧ s'.cpus = s.cpus ∧ s'.limit = s.limit ∧
      Algorithm.roundRobin.Untied s.jobs ∧
      o'.machine.timeline = o.machine.timeline ∧ o'.machine.trace = o.machine.trace ∧
      o'.totalTicks = o.totalTicks ∧
      o.machine.procs.map (·.finish) = [some 5, some 4, some 6, some 4] ∧
      o'.machine.procs.map (·.finish) = [some 4, some 6, some 4, some 5] := by
  intro s s' o o'
  have permuted : s.jobs.Perm s'.jobs := (List.reverse_perm _).symm
  have untied : Algorithm.roundRobin.Untied s.jobs := by
    simp [Algorithm.Untied, Algorithm.Ties, s, lastComesFirst]
  obtain ⟨timeline, trace, -, ticks, -⟩ :=
    table_order_irrelevant ⟨.roundRobin, 2⟩ permuted rfl rfl untied
  exact ⟨permuted, rfl, rfl, untied, timeline, trace, ticks, by decide +kernel, by decide +kernel⟩

end Machine
end CpuScheduling
