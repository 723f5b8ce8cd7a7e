import CpuScheduling.Proofs.Choice
import Mathlib.Data.List.Nodup
import Mathlib.Logic.Relation
/-!
The guarded moves of scheduling. Whatever a policy does between the arrivals of a tick and its row
of the timeline is a sequence of four kinds of moves, each made only under its guard. What every
move keeps is proved here once, for all policies.
-/
namespace CpuScheduling

/-- What a process has done and waited, apart from where it stands. -/
structure Account where
  job : Job
  remaining : Nat
  waited : Nat
  finish : Option Nat
  completed : Bool

def ProcessRecord.account (p : ProcessRecord) : Account :=
  ⟨p.toJob, p.remaining, p.waited, p.finish, p.isCompleted⟩

/-- Processors and processes agree on who runs where. -/
def Matching (held : Nat → Option Nat) (status? : Nat → Option Status) : Prop :=
  ∀ cpu slot, held cpu = some slot ↔ status? slot = some (.running cpu)

theorem Matching.assign {held : Nat → Option Nat} {status? : Nat → Option Status}
    (h : Matching held status?) {cpu slot : Nat} (free : held cpu = none)
    (off : ∀ c, status? slot ≠ some (.running c)) :
    Matching (Function.update held cpu (some slot))
      (Function.update status? slot (some (.running cpu))) := by
  intro c s
  -- the new pair agrees, a pair that shares one side with it does not, all others are as before
  by_cases same_cpu : c = cpu <;> by_cases same_slot : s = slot
  · subst same_cpu same_slot
    simp only [Function.update_self]
  · subst same_cpu
    have elsewhere : status? s ≠ some (.running c) := fun at_c => by
      rw [← h c s, free] at at_c
      cases at_c
    simp only [Function.update_self, Function.update_of_ne same_slot, elsewhere, iff_false]
    exact fun same => same_slot (Option.some.inj same).symm
  · subst same_slot
    have unheld : held c ≠ some s := fun holds => off c ((h c s).1 holds)
    simp only [Function.update_self, Function.update_of_ne same_cpu, unheld, false_iff]
    exact fun same => same_cpu (Status.running.inj (Option.some.inj same)).symm
  · rw [Function.update_of_ne same_cpu, Function.update_of_ne same_slot]
    exact h c s

theorem Matching.release {held : Nat → Option Nat} {status? : Nat → Option Status}
    (h : Matching held status?) {cpu slot : Nat} (holds : held cpu = some slot) {status : Status}
    (off : ∀ c, status ≠ .running c) :
    Matching (Function.update held cpu none) (Function.update status? slot (some status)) := by
  intro c s
  by_cases same_slot : s = slot
  · subst same_slot
    have unheld : Function.update held cpu none c ≠ some s := by
      by_cases same_cpu : c = cpu
      · rw [same_cpu, Function.update_self]
        exact nofun
      · rw [Function.update_of_ne same_cpu]
        intro also
        have twice := ((h c s).1 also).symm.trans ((h cpu s).1 holds)
        exact same_cpu (Status.running.inj (Option.some.inj twice))
    rw [Function.update_self]
    exact ⟨fun also => absurd also unheld, fun same => absurd (Option.some.inj same) (off c)⟩
  · rw [Function.update_of_ne same_slot]
    by_cases same_cpu : c = cpu
    · subst same_cpu
      rw [Function.update_self, ← h c s, holds]
      exact ⟨nofun, fun same => absurd (Option.some.inj same).symm same_slot⟩
    · rw [Function.update_of_ne same_cpu]
      exact h c s

namespace Machine

/-- What all processes have done and waited, in the order of the table. -/
def accounts (m : Machine) : List Account := m.procs.map (·.account)

/-- One move of a policy, under its guard. -/
inductive Move (m : Machine) : Machine → Prop where
  /-- An arrived process that is not queued is put on an idle processor. -/
  | place {cpu slot : Nat} {p : ProcessRecord} (idle : m.isIdleAt cpu = true)
      (found : m.procs[slot]? = some p) (pending : p.status = .waiting ∨ p.status = .ready)
      (arrived : p.arrival ≤ m.now) (unqueued : slot ∉ m.queued) : Move m (m.dispatch cpu slot)
  /-- The occupant of a processor is taken off it. -/
  | displace {cpu slot : Nat} {p : ProcessRecord} (holds : m.held cpu = some slot)
      (found : m.procs[slot]? = some p) (running : p.status = .running cpu) {status : Status}
      {kind : Event.Kind}
      (cause : status = .ready ∧ kind = .expired ∨ status = .waiting ∧ kind = .preempted)
      (notice : Log.Notice) : Move m (m.vacate cpu slot p status kind notice)
  /-- A process in status ready that is not queued asks for a place in the queue. -/
  | enqueue {slot : Nat} (ready : m.status? slot = some .ready) (unqueued : slot ∉ m.queued) :
      Move m (m.sendToQueue slot)
  /-- The front of the queue is taken. -/
  | dequeue {quantum : Nat} {queue : ReadyQueue} (policy : m.policy = .roundRobin quantum queue) :
      Move m { m with policy := .roundRobin quantum queue.dequeue.2 }

/-- Any number of moves. -/
abbrev Moves : Machine → Machine → Prop := Relation.ReflTransGen Move

variable {m m' : Machine}

theorem Move.accounts_eq (h : Move m m') : m'.accounts = m.accounts := by
  cases h with
  | place idle found pending arrived unqueued =>
    rw [accounts, dispatch_eq m _ _ found]
    refine map_set_of_eq found ?_
    rcases pending with waiting | ready
    · simp [ProcessRecord.account, ProcessRecord.dispatch, ProcessRecord.isCompleted, waiting]
    · simp [ProcessRecord.account, ProcessRecord.dispatch, ProcessRecord.isCompleted, ready]
  | displace holds found running cause notice =>
    refine map_set_of_eq found ?_
    rcases cause with ⟨rfl, -⟩ | ⟨rfl, -⟩ <;>
      simp [ProcessRecord.account, ProcessRecord.isCompleted, running]
  | enqueue ready unqueued => rw [accounts, procs_sendToQueue, accounts]
  | dequeue policy => rfl

theorem Move.now_eq (h : Move m m') : m'.now = m.now := by
  cases h with
  | place => exact now_dispatch ..
  | displace => rfl
  | enqueue => exact now_sendToQueue ..
  | dequeue => rfl

theorem Move.size_cpus_eq (h : Move m m') : m'.cpus.size = m.cpus.size := by
  cases h with
  | place => exact size_cpus_dispatch ..
  | displace => exact size_cpus_vacate
  | enqueue => rw [cpus_sendToQueue]
  | dequeue => rfl

theorem Move.completed_eq (h : Move m m') : m'.completed = m.completed := by
  cases h with
  | place => exact completed_dispatch ..
  | displace => rfl
  | enqueue => exact completed_sendToQueue ..
  | dequeue => rfl

theorem Move.rule_eq (h : Move m m') : m'.policy.rule = m.policy.rule := by
  cases h with
  | place => rw [policy_dispatch]
  | displace => rfl
  | enqueue => exact rule_sendToQueue ..
  | dequeue policy =>
    rw [policy, Policy.rule, ReadyQueue.capacity_dequeue]
    rfl

theorem Moves.keeps {α : Type} {view : Machine → α}
    (step : ∀ {x y : Machine}, Move x y → view y = view x) (h : Moves m m') :
    view m' = view m := by
  induction h with
  | refl => rfl
  | tail _ last ih => exact (step last).trans ih

theorem Moves.accounts_eq (h : Moves m m') : m'.accounts = m.accounts :=
  h.keeps Move.accounts_eq

theorem Moves.now_eq (h : Moves m m') : m'.now = m.now := h.keeps Move.now_eq

theorem Moves.size_cpus_eq (h : Moves m m') : m'.cpus.size = m.cpus.size :=
  Moves.keeps (fun step => step.size_cpus_eq) h

theorem Moves.rule_eq (h : Moves m m') : m'.policy.rule = m.policy.rule :=
  Moves.keeps (fun step => step.rule_eq) h

end Machine
end CpuScheduling
