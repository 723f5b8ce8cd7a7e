import CpuScheduling.Proofs.Runs
/-!
Who runs where. At every stage of every step of a run the processors and the processes tell the
same story, and so do the count of finished processes and the queue.
-/
namespace CpuScheduling.Machine

theorem occupancy_invariant (s : Scenario) (algorithm : Algorithm) (quantum capacity n : Nat)
    (stage : Stage) :
    let m := ((boot s (.fresh algorithm quantum capacity)).steps n).stage stage
    (∀ cpu slot, m.held cpu = some slot ↔
      ∃ p, m.procs[slot]? = some p ∧ p.status = .running cpu) ∧
    (∀ cpu cpu' slot, m.held cpu = some slot → m.held cpu' = some slot → cpu = cpu') ∧
    (∀ cpu slot, m.held cpu = some slot → slot < m.procs.length) ∧
    (∀ slot ∈ m.queued, slot < m.procs.length) ∧
    m.completed = ProcessTable.countCompleted m.procs ∧
    m.queued.Nodup ∧
    ∀ slot ∈ m.queued, ∃ p, m.procs[slot]? = some p ∧ p.arrival ≤ m.now ∧ p.status = .ready ∧
      ∀ cpu, m.held cpu ≠ some slot := by
  intro m
  have h : Consistent m :=
    ((atRest_boot s algorithm quantum capacity).steps n).consistent_stage stage
  refine ⟨fun cpu slot => (h.matching cpu slot).trans status?_eq_some, ?_, ?_, ?_, h.completed_eq,
    h.queued_nodup, ?_⟩
  · intro cpu cpu' slot holds holds'
    have twice := ((h.matching cpu slot).1 holds).symm.trans ((h.matching cpu' slot).1 holds')
    exact Status.running.inj (Option.some.inj twice)
  · intro cpu slot holds
    obtain ⟨p, found, -⟩ := h.slot_lt_of_held holds
    exact (List.getElem?_eq_some_iff.1 found).1
  · intro slot member
    obtain ⟨p, found, -⟩ := status?_eq_some.1 (h.queued_ready slot member)
    exact (List.getElem?_eq_some_iff.1 found).1
  · intro slot member
    obtain ⟨p, found, ready⟩ := status?_eq_some.1 (h.queued_ready slot member)
    refine ⟨p, found, h.arrived_of_ready found ready, ready, ?_⟩
    intro cpu holds
    have running := h.running_of_held holds found
    rw [ready] at running
    cases running

/-- A process whose quantum is used up is queued while another has its processor. -/
theorem occupancy_invariant_expired :
    let m := ((boot shorterArrival (.fresh .roundRobin 1 500)).steps 1).stage .occupied
    m.held 0 = some 1 ∧ m.queued = [0] ∧
    (∃ p, m.procs[1]? = some p ∧ p.status = .running 0) ∧
    ∃ p, m.procs[0]? = some p ∧ p.arrival ≤ m.now ∧ p.status = .ready ∧
      ∀ cpu, m.held cpu ≠ some 0 := by
  intro m
  have holds : m.held 0 = some 1 := by decide +kernel
  have queued : m.queued = [0] := by decide +kernel
  obtain ⟨running, -, -, -, -, -, ready⟩ :=
    occupancy_invariant shorterArrival .roundRobin 1 500 1 .occupied
  exact ⟨holds, queued, (running 0 1).1 holds, ready 0 (queued ▸ List.mem_singleton_self 0)⟩

end CpuScheduling.Machine
