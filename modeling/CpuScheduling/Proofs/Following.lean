import CpuScheduling.Proofs.Least
import CpuScheduling.Proofs.ListSchedule
import CpuScheduling.Proofs.Replay
/-!
A machine that carries a plan out. What is dispatched was placed by list scheduling, a processor is
free from the tick on that the placements so far leave, and the rest of the jobs stands in line. Who
stands first is chosen first, and its dispatch is the next placement.
-/
namespace CpuScheduling

/-- The dispatch that a placement asks for. -/
def Placement.event (p : Placement) : Event := ⟨p.start, p.cpu, .dispatched, p.job.pid⟩

namespace Machine
variable {m m' : Machine} {cpu slot : Nat} {done : List Placement} {free : List Nat}
  {line : List (Job × Nat)} {plan : List Placement}

/-- A process that stands in line. -/
def Pending (m : Machine) (e : Job × Nat) : Prop :=
  ∃ r, m.procs[e.2]? = some r ∧ r.toJob = e.1 ∧ r.status = .waiting ∧ r.start = none ∧
    r.remaining = r.burst ∧ 0 < r.remaining

/-- A process that was placed, and runs where it was placed until it has finished. -/
def Placed (m : Machine) (p : Placement) : Prop :=
  ∃ r, m.procs[p.slot]? = some r ∧ r.toJob = p.job ∧ r.start = some p.start ∧ p.start ≤ m.now ∧
    (r.status = .running p.cpu ∧ 0 < r.remaining ∧ m.now + r.remaining = p.finish ∨
      r.status = .completed ∧ r.finish = some p.finish ∧ p.finish ≤ m.now)

theorem Placed.not_waiting {p : Placement} (placed : m.Placed p) {r : ProcessRecord}
    (found : m.procs[p.slot]? = some r) : r.status ≠ .waiting := by
  obtain ⟨r', found', -, -, -, state⟩ := placed
  obtain rfl : r = r' := Option.some.inj (found.symm.trans found')
  rcases state with ⟨running, -⟩ | ⟨completed, -⟩
  · rw [running]
    exact nofun
  · rw [completed]
    exact nofun

theorem Placed.ne_of_pending {p : Placement} {e : Job × Nat} (placed : m.Placed p)
    (pending : m.Pending e) : p.slot ≠ e.2 := by
  intro same
  obtain ⟨r, found, -, waiting, -⟩ := pending
  exact placed.not_waiting (same ▸ found) waiting

/-! What a dispatch changes for one process. -/

theorem Placed.dispatch_of_ne {p : Placement} (placed : m.Placed p) (other : p.slot ≠ slot) :
    (m.dispatch cpu slot).Placed p := by
  unfold Placed
  rw [getElem?_procs_dispatch_of_ne m cpu slot other, now_dispatch]
  exact placed

theorem Pending.dispatch_of_ne {e : Job × Nat} (pending : m.Pending e) (other : e.2 ≠ slot) :
    (m.dispatch cpu slot).Pending e := by
  unfold Pending
  rw [getElem?_procs_dispatch_of_ne m cpu slot other]
  exact pending

/-- Who stands in line is placed by its dispatch. -/
theorem Pending.dispatch {e : Job × Nat} (pending : m.Pending e) (cpu : Nat) :
    (m.dispatch cpu e.2).Placed ⟨e.1, e.2, cpu, m.now⟩ := by
  obtain ⟨r, found, job, -, fresh, whole, work_left⟩ := pending
  have now : (m.dispatch cpu e.2).now = m.now := now_dispatch ..
  have burst : r.remaining = e.1.burst := whole.trans (congrArg (·.burst) job)
  refine ⟨r.dispatch cpu m.now, getElem?_procs_dispatch found, job, ?_, Nat.le_of_eq now.symm,
    .inl ⟨rfl, work_left, ?_⟩⟩
  · show r.start.or (some m.now) = some m.now
    rw [fresh]
    rfl
  · show (m.dispatch cpu e.2).now + r.remaining = m.now + e.1.burst
    rw [now, burst]

/-- A machine after some placements, with the ticks from which on its processors are free and the
line that is left. -/
structure Follows (m : Machine) (done : List Placement) (free : List Nat)
    (line : List (Job × Nat)) : Prop where
  placed : ∀ p ∈ done, m.Placed p
  pending : ∀ e ∈ line, m.Pending e
  covered : ∀ slot < m.procs.length, (∃ p ∈ done, p.slot = slot) ∨ ∃ e ∈ line, e.2 = slot
  sorted : line.Pairwise StandsBefore
  nodup : (line.map (·.2)).Nodup
  width : free.length = m.cpus.size
  busy : ∀ cpu slot r, m.held cpu = some slot → m.procs[slot]? = some r →
    free[cpu]? = some (m.now + r.remaining)
  idle : ∀ cpu f, m.held cpu = none → free[cpu]? = some f → f ≤ m.now
  recorded : m.trace.ofKind .dispatched = done.map Placement.event

namespace Follows

theorem congr (f : Follows m done free line) (procs : m'.procs = m.procs)
    (cpus : m'.cpus = m.cpus) (trace : m'.trace = m.trace) (now : m'.now = m.now) :
    Follows m' done free line := by
  have held_eq : m'.held = m.held := by unfold held; rw [cpus]
  constructor
  case placed =>
    unfold Placed
    rw [procs, now]
    exact f.placed
  case pending =>
    unfold Pending
    rw [procs]
    exact f.pending
  case covered =>
    rw [procs]
    exact f.covered
  case sorted => exact f.sorted
  case nodup => exact f.nodup
  case width =>
    rw [cpus]
    exact f.width
  case busy =>
    rw [held_eq, procs, now]
    exact f.busy
  case idle =>
    rw [held_eq, now]
    exact f.idle
  case recorded =>
    rw [trace]
    exact f.recorded

theorem placed_of_not_waiting (f : Follows m done free line) {r : ProcessRecord}
    (found : m.procs[slot]? = some r) (moved : r.status ≠ .waiting) :
    ∃ p ∈ done, p.slot = slot := by
  rcases f.covered slot (List.getElem?_eq_some_iff.1 found).1 with placed | ⟨e, member, rfl⟩
  · exact placed
  · obtain ⟨r', found', -, waiting, -⟩ := f.pending e member
    obtain rfl : r = r' := Option.some.inj (found.symm.trans found')
    exact absurd waiting moved

theorem pending_of_waiting (f : Follows m done free line) {r : ProcessRecord}
    (found : m.procs[slot]? = some r) (waiting : r.status = .waiting) : ∃ e ∈ line, e.2 = slot := by
  rcases f.covered slot (List.getElem?_eq_some_iff.1 found).1 with ⟨p, member, rfl⟩ | stands
  · exact absurd waiting ((f.placed p member).not_waiting found)
  · exact stands

/-- A processor that holds a process is not free before that has finished. -/
theorem lt_of_held (f : Follows m done free line) (h : Consistent m)
    (holds : m.held cpu = some slot) {g : Nat} (found : free[cpu]? = some g) : m.now < g := by
  obtain ⟨r, at_slot, running⟩ := h.slot_lt_of_held holds
  obtain ⟨p, member, rfl⟩ := f.placed_of_not_waiting at_slot (by rw [running]; exact nofun)
  obtain ⟨r', found', -, -, -, ⟨-, work_left, -⟩ | ⟨completed, -⟩⟩ := f.placed p member
  · obtain rfl : r = r' := Option.some.inj (at_slot.symm.trans found')
    rw [f.busy cpu p.slot r holds at_slot] at found
    obtain rfl := Option.some.inj found
    omega
  · obtain rfl : r = r' := Option.some.inj (at_slot.symm.trans found')
    rw [running] at completed
    cases completed

/-- The policy chooses who stands first in line. -/
theorem head_of_choose (f : Follows m done free line) (policy : m.policy = .fcfs)
    (chosen : m.choose.1 = some slot) :
    ∃ e rest, line = e :: rest ∧ e.2 = slot ∧ e.1.arrival ≤ m.now := by
  have scan : Selection.bestWaiting? (·.arrival) m.procs m.now = some slot := by
    rw [← chosen, choose, policy]
    rfl
  obtain ⟨r, first⟩ := (Selection.strictWeak_precedes (·.arrival)).isFirstLeast scan
  have fits := first.fits
  simp only [ProcessRecord.arrivedBy, Bool.and_eq_true, decide_eq_true_eq] at fits
  obtain ⟨e, member, at_slot⟩ := f.pending_of_waiting first.found fits.1
  obtain ⟨r₁, found₁, job₁, -⟩ := f.pending e member
  rw [at_slot, first.found] at found₁
  obtain rfl : r = r₁ := Option.some.inj found₁
  cases line with
  | nil => cases member
  | cons head rest =>
    rcases List.mem_cons.1 member with rfl | behind
    · exact ⟨e, rest, rfl, at_slot, job₁ ▸ fits.2⟩
    -- who stands before the chosen one has arrived as well, and would have been chosen
    · exfalso
      have before := (List.pairwise_cons.1 f.sorted).1 e behind
      obtain ⟨r₀, found₀, job₀, waiting, -⟩ := f.pending head List.mem_cons_self
      have apart : head.2 ≠ slot := by
        intro same
        have absent := (List.nodup_cons.1 f.nodup).1
        exact absent (List.mem_map.2 ⟨e, behind, at_slot.trans same.symm⟩)
      have arrival₀ : r₀.arrival = head.1.arrival := congrArg (·.arrival) job₀
      have arrival₁ : r.arrival = e.1.arrival := congrArg (·.arrival) job₁
      have priority₀ : r₀.priority = head.1.priority := congrArg (·.priority) job₀
      have priority₁ : r.priority = e.1.priority := congrArg (·.priority) job₁
      simp only [StandsBefore, ← arrival₀, ← arrival₁, ← priority₀, ← priority₁, at_slot] at before
      have fits₀ : (decide (r₀.status = .waiting) && r₀.arrivedBy m.now) = true := by
        simp only [waiting, ProcessRecord.arrivedBy, Bool.and_eq_true, decide_eq_true_eq, true_and]
        omega
      have least := first.least head.2 r₀ found₀ fits₀
      have earliest := first.earliest head.2 r₀ found₀ fits₀
      simp only [Selection.precedes, Selection.breaksTie, Bool.or_eq_false_iff,
        Bool.and_eq_false_iff, decide_eq_false_iff_not, beq_eq_false_iff_ne, Bool.or_eq_true,
        Bool.and_eq_true, decide_eq_true_eq, beq_iff_eq] at least earliest
      omega

/-- The plan has who stands first in line on the first idle processor, if it has arrived. -/
theorem place_eq (f : Follows m done free line) (h : Consistent m) {e : Job × Nat}
    (idle : m.isIdleAt cpu = true) (lowest : ∀ c < cpu, m.isIdleAt c = false)
    (arrived : e.1.arrival ≤ m.now) (late : m.now ≤ (place free e).start) :
    place free e = ⟨e.1, e.2, cpu, m.now⟩ := by
  obtain ⟨inside, vacant⟩ := isIdleAt_iff.1 idle
  have found := List.getElem?_eq_getElem (f.width.symm ▸ inside : cpu < free.length)
  refine CpuScheduling.place_eq found (f.idle cpu _ vacant found) (fun c before g found' => ?_)
    arrived late
  cases holds : m.held c with
  | some s => exact f.lt_of_held h holds found'
  | none =>
    have idle_before := isIdleAt_iff.2 ⟨before.trans inside, holds⟩
    rw [lowest c before] at idle_before
    cases idle_before

theorem dispatch {e : Job × Nat} {rest : List (Job × Nat)} (f : Follows m done free (e :: rest))
    (h : Consistent m) (idle : m.isIdleAt cpu = true) :
    Follows (m.dispatch cpu e.2) (done ++ [⟨e.1, e.2, cpu, m.now⟩])
      (free.set cpu (m.now + e.1.burst)) rest := by
  obtain ⟨inside, -⟩ := isIdleAt_iff.1 idle
  have stands := f.pending e List.mem_cons_self
  have ⟨r, at_slot, job, waiting, _, whole, _⟩ := stands
  obtain ⟨absent, nodup⟩ := List.nodup_cons.1 f.nodup
  have now : (m.dispatch cpu e.2).now = m.now := now_dispatch ..
  have held := held_dispatch at_slot inside
  constructor
  case placed =>
    intro p member
    rcases List.mem_append.1 member with old | new
    · exact (f.placed p old).dispatch_of_ne ((f.placed p old).ne_of_pending stands)
    · rw [List.mem_singleton.1 new]
      exact stands.dispatch cpu
  case pending =>
    intro e' behind
    have other : e'.2 ≠ e.2 := fun same => absent (List.mem_map.2 ⟨e', behind, same⟩)
    exact (f.pending e' (List.mem_cons_of_mem e behind)).dispatch_of_ne other
  case covered =>
    intro s bound
    rw [dispatch_eq m cpu e.2 at_slot, List.length_set] at bound
    rcases f.covered s bound with ⟨p, member, same⟩ | ⟨e', member, same⟩
    · exact .inl ⟨p, List.mem_append_left _ member, same⟩
    · rcases List.mem_cons.1 member with rfl | behind
      · exact .inl ⟨_, List.mem_append_right _ (List.mem_singleton_self _), same⟩
      · exact .inr ⟨e', behind, same⟩
  case sorted => exact (List.pairwise_cons.1 f.sorted).2
  case nodup => exact nodup
  case width => rw [List.length_set, f.width, size_cpus_dispatch]
  case busy =>
    intro c s q holds found
    rw [held] at holds
    rw [now]
    by_cases same : c = cpu
    · subst same
      rw [Function.update_self] at holds
      obtain rfl := Option.some.inj holds
      obtain rfl := Option.some.inj ((getElem?_procs_dispatch at_slot).symm.trans found)
      have burst : r.remaining = e.1.burst := whole.trans (congrArg (·.burst) job)
      rw [List.getElem?_set_self (f.width.symm ▸ inside)]
      exact congrArg (fun b => some (m.now + b)) burst.symm
    · rw [Function.update_of_ne same] at holds
      have other : s ≠ e.2 := by
        rintro rfl
        rw [h.running_of_held holds at_slot] at waiting
        cases waiting
      rw [getElem?_procs_dispatch_of_ne m _ e.2 other] at found
      rw [List.getElem?_set_ne (Ne.symm same)]
      exact f.busy c s q holds found
  case idle =>
    intro c g free_now found
    rw [held] at free_now
    rw [now]
    have other : c ≠ cpu := by
      rintro rfl
      rw [Function.update_self] at free_now
      cases free_now
    rw [Function.update_of_ne other] at free_now
    rw [List.getElem?_set_ne other.symm] at found
    exact f.idle c g free_now found
  case recorded =>
    have recorded : (m.dispatch cpu e.2).trace =
        m.trace.push ⟨m.now, cpu, .dispatched, r.pid⟩ := by rw [dispatch_eq m cpu e.2 at_slot]
    have pid : r.pid = e.1.pid := congrArg (·.pid) job
    rw [recorded, Trace.ofKind_push, f.recorded, List.map_append, pid]
    rfl

end Follows

end Machine
end CpuScheduling
