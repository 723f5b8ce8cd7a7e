import CpuScheduling.Proofs.Accounting
/-!
Slices. What no event of a run destroys in the record of a process holds of all records throughout
the run. So a process has never used more of its slice than it has worked, one that runs has used
less than its burst, and only a process that was dispatched runs or has completed.
-/
namespace CpuScheduling

namespace ProcessRecord

/-- A property of records that survives being put on a processor and being off it. -/
structure Steadfast (P : ProcessRecord → Prop) : Prop where
  stand : ∀ p status, status = .waiting ∨ status = .ready → P p → P { p with status }
  dispatch : ∀ p cpu now, P p → P (p.dispatch cpu now)

/-- A property of records that nothing destroys that may happen to a process in a run. -/
structure Lasting (P : ProcessRecord → Prop) : Prop extends Steadfast P where
  pass : ∀ p now, P p → (p.isRunning = true → 0 < p.remaining) → P (p.pass now)

/-- A property of records that nothing destroys, whether or not work is left to who runs. -/
structure Enduring (P : ProcessRecord → Prop) : Prop extends Steadfast P where
  pass : ∀ p now, P p → P (p.pass now)

/-- The ticks used of a slice are not more than the work that is done. -/
def Sliced (p : ProcessRecord) : Prop := p.sliceUsed + p.remaining ≤ p.burst

theorem lasting_sliced : Lasting Sliced where
  stand _ _ _ sliced := sliced
  dispatch p _ _ sliced := by
    show 0 + p.remaining ≤ p.burst
    unfold Sliced at sliced
    omega
  pass p now sliced work_left := by
    unfold Sliced at sliced ⊢
    unfold pass
    split
    next running =>
      have some_left := work_left running
      unfold work
      dsimp only
      split <;> dsimp only <;> omega
    next =>
      unfold ageWaiting
      split <;> exact sliced

/-- Only who has been dispatched runs or has completed. -/
def StartsFirst (p : ProcessRecord) : Prop :=
  p.start = none → p.status = .waiting ∨ p.status = .ready

theorem enduring_startsFirst : Enduring StartsFirst where
  stand _ _ off _ _ := off
  dispatch p _ now _ unstarted := by
    have started : p.start.or (some now) = none := unstarted
    cases (Option.or_eq_none_iff.1 started).2
  pass p now first unstarted := by
    rw [p.start_pass] at unstarted
    have off : ∀ cpu, Status.waiting ≠ .running cpu ∧ Status.ready ≠ .running cpu :=
      fun _ => ⟨nofun, nofun⟩
    exact (first unstarted).imp ((p.status_pass now (fun cpu => (off cpu).1) nofun).2)
      ((p.status_pass now (fun cpu => (off cpu).2) nofun).2)

theorem StartsFirst.started_of_completed {p : ProcessRecord} (first : p.StartsFirst)
    (done : p.status = .completed) : ∃ t, p.start = some t := by
  refine Option.ne_none_iff_exists'.1 fun unstarted => ?_
  rcases first unstarted with stands | stands <;> cases done.symm.trans stands

end ProcessRecord

open ProcessRecord (Steadfast Lasting Enduring)

namespace Machine
variable {m m' : Machine} {P : ProcessRecord → Prop}

section Steadfast
variable (steadfast : Steadfast P) (all : ∀ p ∈ m.procs, P p)
include steadfast all

theorem Move.forall_procs (move : Move m m') : ∀ p ∈ m'.procs, P p := by
  intro q member
  cases move with
  | place idle found pending arrived unqueued =>
    rw [dispatch_eq m _ _ found] at member
    rcases List.mem_or_eq_of_mem_set member with old | rfl
    · exact all q old
    · exact steadfast.dispatch _ _ _ (all _ (List.mem_of_getElem? found))
  | displace holds found running cause notice =>
    rcases List.mem_or_eq_of_mem_set member with old | rfl
    · exact all q old
    · exact steadfast.stand _ _ (cause.symm.imp And.left And.left)
        (all _ (List.mem_of_getElem? found))
  | enqueue ready unqueued =>
    rw [procs_sendToQueue] at member
    exact all q member
  | dequeue policy => exact all q member

theorem Moves.forall_procs (moves : Moves m m') : ∀ p ∈ m'.procs, P p := by
  induction moves with
  | refl => exact all
  | tail _ last ih => exact last.forall_procs steadfast ih

theorem forall_procs_enrolled : ∀ p ∈ m.enrolled.procs, P p := by
  intro q member
  rw [procs_enrolled] at member
  obtain ⟨p, before, rfl⟩ := List.mem_map.1 member
  rcases p.enroll_cases m.policy.algorithm m.now with same | ⟨-, -, ready⟩
  · rw [same]
    exact all p before
  · rw [ready]
    exact steadfast.stand p .ready (.inr rfl) (all p before)

theorem AtRest.forall_procs_occupied (rest : AtRest m) : ∀ p ∈ m.occupied.procs, P p :=
  rest.moves_occupied.forall_procs steadfast (forall_procs_enrolled steadfast all)

/-- What the rest of the tick keeps as well holds after the tick. -/
theorem AtRest.forall_procs_pass (rest : AtRest m)
    (pass : ∀ p ∈ m.occupied.procs, P p → P (p.pass m.now)) : ∀ p ∈ m.step.procs, P p := by
  intro q member
  rw [rest.procs_step] at member
  obtain ⟨p, before, rfl⟩ := List.mem_map.1 member
  exact pass p before (rest.forall_procs_occupied steadfast all p before)

end Steadfast

theorem AtRest.enduring_steps (rest : AtRest m) (enduring : Enduring P) (all : ∀ p ∈ m.procs, P p)
    (n : Nat) : ∀ p ∈ (m.steps n).procs, P p := by
  induction n with
  | zero => exact all
  | succ n ih =>
    rw [steps_succ]
    exact (rest.steps n).forall_procs_pass enduring.toSteadfast ih fun p _ => enduring.pass p _

section Lasting
variable (lasting : Lasting P) (all : ∀ p ∈ m.procs, P p)
include lasting all

theorem AtRest.forall_procs_step (rest : AtRest m) (balanced : m.Balanced) :
    ∀ p ∈ m.step.procs, P p :=
  rest.forall_procs_pass lasting.toSteadfast all fun p before holds =>
    lasting.pass p m.now holds (rest.work_left_of_running balanced before)

theorem AtRest.forall_procs_steps (rest : AtRest m) (balanced : m.Balanced) (n : Nat) :
    ∀ p ∈ (m.steps n).procs, P p := by
  induction n with
  | zero => exact all
  | succ n ih =>
    rw [steps_succ]
    exact (rest.steps n).forall_procs_step lasting ih (balanced.steps rest n)

end Lasting

theorem sliced_boot (s : Scenario) (policy : Policy) : ∀ p ∈ (boot s policy).procs, p.Sliced := by
  intro p member
  obtain ⟨job, -, rfl⟩ := List.mem_map.1 member
  exact Nat.le_of_eq (Nat.zero_add _)

end Machine
end CpuScheduling
