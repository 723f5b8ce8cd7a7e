import CpuScheduling.Proofs.Challenge
import CpuScheduling.Proofs.Filling
/-!
Seizing a processor. What one preemption does: the shortest ready process takes an idle processor,
or if there is none one with a longer occupant, who waits from then on. It makes no process ready,
and it pays for an eviction with a first dispatch.
-/
namespace CpuScheduling

/-- The number of evictions by shorter processes. -/
def Trace.evictions (trace : Trace) : Nat := (trace.ofKind .preempted).length

theorem Trace.evictions_push (trace : Trace) (e : Event) :
    Trace.evictions (trace.push e) =
      trace.evictions + if e.kind = .preempted then 1 else 0 := by
  rw [evictions, ofKind_push, List.length_append, evictions]
  split <;> rfl

namespace ProcessRecord

/-- Under a policy that evicts, ready means not yet dispatched; who runs was. -/
def Orderly (p : ProcessRecord) : Prop :=
  (p.status = .ready → p.start = none) ∧ (p.isRunning = true → p.start.isSome = true)

variable {p : ProcessRecord}

theorem orderly_of_waiting (waiting : p.status = .waiting) : p.Orderly := by
  constructor
  · intro ready
    rw [waiting] at ready
    cases ready
  · intro running
    obtain ⟨cpu, at_cpu⟩ := isRunning_iff.1 running
    rw [waiting] at at_cpu
    cases at_cpu

theorem orderly_dispatch (p : ProcessRecord) (cpu now : Nat) : (p.dispatch cpu now).Orderly := by
  refine ⟨nofun, fun _ => ?_⟩
  show (p.start.or (some now)).isSome = true
  cases p.start <;> rfl

theorem Orderly.enroll (h : p.Orderly) (algorithm : Algorithm) {now : Nat}
    (untouched : p.arrival = now → p.start = none) : (p.enroll algorithm now).Orderly := by
  rcases p.enroll_cases algorithm now with same | ⟨-, at_once, ready⟩
  · rw [same]
    exact h
  · rw [ready]
    exact ⟨fun _ => untouched at_once, nofun⟩

theorem start_enroll (p : ProcessRecord) (algorithm : Algorithm) (now : Nat) :
    (p.enroll algorithm now).start = p.start := by
  rcases p.enroll_cases algorithm now with same | ⟨-, -, ready⟩
  · rw [same]
  · rw [ready]

theorem Orderly.pass (h : p.Orderly) (now : Nat) : (p.pass now).Orderly := by
  constructor
  · intro ready
    rw [start_pass]
    have off : ∀ cpu, Status.ready ≠ .running cpu := nofun
    exact h.1 ((p.status_pass now off nofun).1 ready)
  · intro running
    obtain ⟨cpu, at_cpu⟩ := isRunning_iff.1 running
    rw [start_pass]
    exact h.2 (isRunning_iff.2 ⟨cpu, (status_pass_running.1 at_cpu).1⟩)

theorem Orderly.ageWaiting (h : p.Orderly) (now : Nat) : (p.ageWaiting now).Orderly := by
  unfold ProcessRecord.ageWaiting
  split <;> exact h

end ProcessRecord

namespace Machine
variable {m x y : Machine} {cpu slot : Nat} {p : ProcessRecord}

/-! What is looked at. -/

/-- The work that the process of a slot has left. -/
def left (m : Machine) (slot : Nat) : Nat := m.procs[slot]?.elim 0 (·.remaining)

theorem left_of_getElem? (found : m.procs[slot]? = some p) : m.left slot = p.remaining := by
  rw [left, found]
  rfl

theorem left_eq_of_accounts_eq (same : x.accounts = y.accounts) : x.left = y.left := by
  have left_eq : ∀ z : Machine, z.left = fun slot => z.accounts[slot]?.elim 0 (·.remaining) := by
    intro z
    funext slot
    rw [left, accounts, List.getElem?_map]
    cases z.procs[slot]? <;> rfl
  rw [left_eq, left_eq, same]

/-- No ready process has less work left than the one of a slot. -/
def Leads (m : Machine) (slot : Nat) : Prop :=
  ∀ s, m.status? s = some .ready → m.left slot ≤ m.left s

/-- A processor holds a process that no ready one could evict. -/
def Firm (m : Machine) (cpu : Nat) : Prop := ∃ slot, m.held cpu = some slot ∧ m.Leads slot

def Orderly (m : Machine) : Prop := ∀ p ∈ m.procs, p.Orderly

/-- The processes that were ever dispatched. -/
def started (m : Machine) : Nat := m.procs.countP (·.start.isSome)

/-- Evictions are fewer than the processes that were ever dispatched. -/
def Solvent (m : Machine) : Prop := m.trace.evictions ≤ m.started - 1

theorem Orderly.dispatch (o : m.Orderly) (cpu slot : Nat) : (m.dispatch cpu slot).Orderly := by
  cases found : m.procs[slot]? with
  | none =>
    rw [Machine.dispatch, found]
    exact o
  | some p =>
    rw [dispatch_eq m cpu slot found]
    intro q member
    rcases List.mem_or_eq_of_mem_set member with old | rfl
    · exact o q old
    · exact p.orderly_dispatch cpu m.now

theorem Orderly.evict (o : m.Orderly) (cpu : Nat) (victor : Int) :
    (m.evict cpu victor).Orderly := by
  unfold Machine.evict
  split
  · exact o
  · intro q member
    rcases List.mem_or_eq_of_mem_set member with old | rfl
    · exact o q old
    · exact ProcessRecord.orderly_of_waiting rfl

theorem started_dispatch (found : m.procs[slot]? = some p) (cpu : Nat) :
    (m.dispatch cpu slot).started + (if p.start.isSome then 1 else 0) = m.started + 1 := by
  have counts := countP_set_add (·.start.isSome) found (p.dispatch cpu m.now)
  have since : (p.dispatch cpu m.now).start.isSome = true := by
    show (p.start.or (some m.now)).isSome = true
    cases p.start <;> rfl
  rw [if_pos since] at counts
  rw [started, dispatch_eq m cpu slot found]
  exact counts

theorem started_vacate {status : Status} {kind : Event.Kind} {notice : Log.Notice}
    (found : m.procs[slot]? = some p) :
    (m.vacate cpu slot p status kind notice).started = m.started := by
  have counted : ∀ l : List ProcessRecord,
      l.countP (·.start.isSome) = (l.map (·.start)).countP (·.isSome) := fun l => by
    rw [List.countP_map]
    rfl
  have same : (m.procs.set slot { p with status }).map (·.start) = m.procs.map (·.start) :=
    map_set_of_eq found rfl
  rw [started, vacate, counted, same, ← counted, started]

theorem Solvent.dispatch (s : m.Solvent) (cpu slot : Nat) : (m.dispatch cpu slot).Solvent := by
  cases found : m.procs[slot]? with
  | none =>
    rw [Machine.dispatch, found]
    exact s
  | some p =>
    have counts := started_dispatch found cpu
    have recorded : (m.dispatch cpu slot).trace.evictions = m.trace.evictions := by
      rw [dispatch_eq m cpu slot found]
      exact Trace.evictions_push m.trace _
    unfold Solvent at s ⊢
    rw [recorded]
    split at counts <;> omega

theorem Orderly.occupyThese (o : m.Orderly) (cpus : List Nat) : (m.occupyThese cpus).Orderly :=
  occupyThese_induction (P := fun _ x y => x.Orderly → y.Orderly) (fun _ o => o)
    (fun _ _ _ _ ih => ih) (fun _ _ _ _ _ o => o)
    (fun cpu _ x slot _ _ ih o => ih (Orderly.dispatch (m := x.choose.2) o cpu slot)) cpus m o

theorem Solvent.occupyThese (s : m.Solvent) (cpus : List Nat) : (m.occupyThese cpus).Solvent :=
  occupyThese_induction (P := fun _ x y => x.Solvent → y.Solvent) (fun _ s => s)
    (fun _ _ _ _ ih => ih) (fun _ _ _ _ _ s => s)
    (fun cpu _ x slot _ _ ih s => ih (Solvent.dispatch (m := x.choose.2) s cpu slot)) cpus m s

/-! One preemption. -/

theorem challenger?_of_preemption? (preempts : x.preemption? = some (slot, p, cpu)) :
    Selection.challenger? x.procs x.now = some slot ∧
      Selection.placeFor? x.cpus.toList x.procs slot = some cpu := by
  obtain ⟨s, challenger, h⟩ := Option.bind_eq_some_iff.1 preempts
  obtain ⟨q, found, h⟩ := Option.bind_eq_some_iff.1 h
  obtain ⟨c, place, h⟩ := Option.bind_eq_some_iff.1 h
  cases h
  exact ⟨challenger, place⟩

section Round
variable (h : Consistent x) (preempts : x.preemption? = some (slot, p, cpu))
include h preempts

theorem leads_of_preemption? : x.Leads slot := by
  intro s ready
  obtain ⟨found, -⟩ := preemption?_eq_some preempts
  obtain ⟨q, found', ready'⟩ := status?_eq_some.1 ready
  rw [left_of_getElem? found, left_of_getElem? found']
  exact Selection.remaining_le_of_challenger? (challenger?_of_preemption? preempts).1 found
    (List.mem_of_getElem? found') ready' (h.arrived_of_ready found' ready')

omit h in
/-- Nobody is evicted while a processor is idle. -/
theorem busy_of_preemption? {victim : Nat} (holds : x.held cpu = some victim) (c : Nat) :
    x.isIdleAt c = false := by
  have place := (challenger?_of_preemption? preempts).2
  unfold Selection.placeFor? at place
  split at place
  next first =>
    cases place
    obtain ⟨inside, idle, -⟩ := List.findIdx?_eq_some_iff_getElem.1 first
    have free : x.isIdleAt cpu = true := by
      rw [isIdleAt, ← Array.getElem?_toList, List.getElem?_eq_getElem inside]
      exact idle
    rw [(isIdleAt_iff.1 free).2] at holds
    cases holds
  next none_idle =>
    rw [isIdleAt, Option.any_eq_false]
    intro processor at_c
    exact List.findIdx?_eq_none_iff.1 none_idle processor
      (Array.mem_toList_iff.2 (Array.mem_of_getElem? at_c))

omit h in
theorem ne_of_firm {c : Nat} (firm : x.Firm c) : c ≠ cpu := by
  rintro rfl
  obtain ⟨s, holds, leads⟩ := firm
  obtain ⟨found, ready, -, -, free | ⟨victim, v, holds', at_slot, longer⟩⟩ :=
    preemption?_eq_some preempts
  · rw [free] at holds
    cases holds
  · obtain rfl : s = victim := Option.some.inj (holds.symm.trans holds')
    have least := leads slot (status?_eq_some.2 ⟨p, found, ready⟩)
    rw [left_of_getElem? found, left_of_getElem? at_slot] at least
    exact Nat.not_lt_of_le least longer

end Round

/-- What a preemption does: the process of a slot gets a processor, an idle one, or if there is none
one with a longer occupant, who waits from then on. -/
inductive Seizes (x : Machine) (cpu slot : Nat) (p : ProcessRecord) : Machine → Prop
  | idle (free : x.held cpu = none) : Seizes x cpu slot p (x.dispatch cpu slot)
  | busy {victim : Nat} {v : ProcessRecord} (full : ∀ c, x.isIdleAt c = false)
      (holds : x.held cpu = some victim) (at_slot : x.procs[victim]? = some v)
      (running : v.status = .running cpu) (longer : p.remaining < v.remaining)
      (other : victim ≠ slot) (notice : Log.Notice) :
      Seizes x cpu slot p ((x.vacate cpu victim v .waiting .preempted notice).dispatch cpu slot)

theorem seizes_of_preemption? (h : Matching x.held x.status?)
    (preempts : x.preemption? = some (slot, p, cpu)) :
    Seizes x cpu slot p ((x.evict cpu p.pid).dispatch cpu slot) := by
  obtain ⟨found, ready, -, -, free | ⟨victim, v, holds, at_slot, longer⟩⟩ :=
    preemption?_eq_some preempts
  · rw [evict_of_idle p.pid free]
    exact .idle free
  · have running := h.running_of_held holds at_slot
    have other : victim ≠ slot := by
      rintro rfl
      obtain rfl : p = v := Option.some.inj (found.symm.trans at_slot)
      rw [ready] at running
      cases running
    rw [evict_of_held p.pid holds at_slot]
    exact .busy (busy_of_preemption? preempts holds) holds at_slot running longer other _

namespace Seizes
variable (seizes : Seizes x cpu slot p y) (found : x.procs[slot]? = some p)
include seizes found

theorem held (inside : cpu < x.cpus.size) : y.held = Function.update x.held cpu (some slot) := by
  cases seizes with
  | idle free => exact held_dispatch found inside
  | busy full holds at_slot running longer other notice =>
    rw [held_dispatch ((List.getElem?_set_ne other).trans found), held_vacate inside,
      Function.update_idem]
    rw [size_cpus_vacate]
    exact inside

theorem status?_of_ne {s : Nat} (apart : s ≠ slot) :
    y.status? s = x.status? s ∨ x.held cpu = some s ∧ y.status? s = some .waiting := by
  cases seizes with
  | idle free =>
    rw [status?_dispatch found, Function.update_of_ne apart]
    exact .inl rfl
  | @busy victim v full holds at_slot running longer other notice =>
    rw [status?_dispatch ((List.getElem?_set_ne other).trans found), Function.update_of_ne apart,
      status?_vacate at_slot]
    by_cases here : s = victim
    · subst here
      exact .inr ⟨holds, Function.update_self ..⟩
    · exact .inl (Function.update_of_ne here ..)

theorem status?_self : y.status? slot = some (.running cpu) := by
  cases seizes with
  | idle free => rw [status?_dispatch found, Function.update_self]
  | busy full holds at_slot running longer other notice =>
    rw [status?_dispatch ((List.getElem?_set_ne other).trans found), Function.update_self]

theorem ready_of {s : Nat} (ready : y.status? s = some .ready) : x.status? s = some .ready := by
  have apart : s ≠ slot := by
    rintro rfl
    rw [seizes.status?_self found] at ready
    cases ready
  rcases seizes.status?_of_ne found apart with same | ⟨-, waiting⟩
  · exact same.symm.trans ready
  · rw [waiting] at ready
    cases ready

theorem leads (left : y.left = x.left) {s : Nat} (leads : x.Leads s) : y.Leads s := by
  intro s' ready
  rw [left]
  exact leads s' (seizes.ready_of found ready)

theorem waiting (ready : p.status = .ready) {s : Nat} (waits : x.status? s = some .waiting) :
    y.status? s = some .waiting := by
  have apart : s ≠ slot := by
    rintro rfl
    rw [status?_of_getElem? found, ready] at waits
    cases waits
  rcases seizes.status?_of_ne found apart with same | ⟨-, waiting⟩
  · exact same.trans waits
  · exact waiting

theorem solvent (fresh : p.start = none) (s : x.Solvent) (o : x.Orderly) : y.Solvent := by
  cases seizes with
  | idle free => exact s.dispatch cpu slot
  | @busy victim v full holds at_slot running longer other notice =>
    -- the eviction is paid by the first dispatch of the process that takes the processor
    have found' : (x.vacate cpu victim v .waiting .preempted notice).procs[slot]? = some p :=
      (List.getElem?_set_ne other).trans found
    have counts := started_dispatch found' cpu
    have same : (x.vacate cpu victim v .waiting .preempted notice).started = x.started :=
      started_vacate at_slot
    have ran := o v (List.mem_of_getElem? at_slot)
    have before : 0 < x.started := List.countP_pos_iff.2
      ⟨v, List.mem_of_getElem? at_slot, ran.2 (ProcessRecord.isRunning_iff.2 ⟨cpu, running⟩)⟩
    have recorded : ((x.vacate cpu victim v .waiting .preempted notice).dispatch cpu
        slot).trace.evictions = x.trace.evictions + 1 := by
      rw [dispatch_eq _ cpu slot found', Trace.evictions_push]
      exact Trace.evictions_push x.trace _
    rw [fresh, same] at counts
    unfold Solvent at s ⊢
    rw [recorded]
    simp only [Option.isSome_none, Bool.false_eq_true, if_false] at counts
    omega

end Seizes

/-- When no preemption is possible, no process that a processor holds has more work left than an
arrived ready one. -/
theorem remaining_le_of_preemption?_eq_none (none_left : x.preemption? = none)
    (holds : x.held cpu = some slot) {v r : ProcessRecord} (at_slot : x.procs[slot]? = some v)
    (member : r ∈ x.procs) (arrived : r.arrival ≤ x.now) (ready : r.status = .ready) :
    v.remaining ≤ r.remaining := by
  obtain ⟨first, q, challenger, found, unplaced⟩ := unplaced_of_ready none_left member arrived ready
  have least := Selection.remaining_le_of_challenger? challenger found member ready arrived
  obtain ⟨c, at_cpu, current⟩ := Option.bind_eq_some_iff.1 holds
  have hosts : Selection.Hosts x.cpus.toList x.procs cpu v :=
    ⟨c, slot, by rw [Array.getElem?_toList, at_cpu], current, at_slot⟩
  exact Nat.le_trans (Selection.remaining_le_of_placeFor?_eq_none found unplaced hosts) least

theorem leads_of_preemption?_eq_none (h : Consistent x) (none_left : x.preemption? = none)
    (holds : x.held cpu = some slot) : x.Leads slot := by
  intro s ready
  obtain ⟨v, at_slot, -⟩ := h.slot_lt_of_held holds
  obtain ⟨r, found, ready⟩ := status?_eq_some.1 ready
  rw [left_of_getElem? at_slot, left_of_getElem? found]
  exact remaining_le_of_preemption?_eq_none none_left holds at_slot (List.mem_of_getElem? found)
    (h.arrived_of_ready found ready) ready

end Machine
end CpuScheduling
