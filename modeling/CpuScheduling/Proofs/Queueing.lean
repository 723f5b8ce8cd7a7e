import CpuScheduling.Proofs.Filling
/-!
Round robin's queue in one tick: the arrivals ask for a place, then the processes whose quantum is
used up, in the order of their processors; what the queue has no room for is refused and counted.
-/
namespace CpuScheduling

namespace ReadyQueue

/-- Of some slots that ask in turn, those that the queue takes. -/
def accepted (q : ReadyQueue) : List Nat → List Nat
  | [] => []
  | slot :: slots =>
    match q.enqueue slot with
    | .ok longer => slot :: longer.accepted slots
    | .error _ => q.accepted slots

/-- Of some slots that ask in turn, those that the queue refuses. -/
def refused (q : ReadyQueue) : List Nat → List Nat
  | [] => []
  | slot :: slots =>
    match q.enqueue slot with
    | .ok longer => longer.refused slots
    | .error _ => slot :: q.refused slots

theorem snd_enqueueAll_of_full {q : ReadyQueue} (full : q.length = q.capacity)
    (slots : List Nat) : (q.enqueueAll slots).2 = q := by
  simp [enqueueAll, full]

theorem slots_enqueueAll (q : ReadyQueue) (slots : List Nat) :
    (q.enqueueAll slots).2.slots = q.slots ++ q.accepted slots := by
  induction slots generalizing q with
  | nil => rw [enqueueAll_nil, accepted, List.append_nil]
  | cons slot slots ih =>
    unfold accepted
    cases asked : q.enqueue slot with
    | ok longer =>
      rw [enqueueAll_cons_of_enqueue_eq_ok slots asked, ih, (slots_enqueue asked).1]
      exact List.append_assoc _ [slot] _
    | error e =>
      have full := (enqueue_eq_error_iff.1 asked).1
      rw [enqueueAll_cons_of_enqueue_eq_error slots asked, ← ih, snd_enqueueAll_of_full full]

theorem fst_enqueueAll (q : ReadyQueue) (slots : List Nat) :
    (q.enqueueAll slots).1 = (q.refused slots).length := by
  induction slots generalizing q with
  | nil => rw [enqueueAll_nil, refused, List.length_nil]
  | cons slot slots ih =>
    unfold refused
    cases asked : q.enqueue slot with
    | ok longer => rw [enqueueAll_cons_of_enqueue_eq_ok slots asked, ih]
    | error e => rw [enqueueAll_cons_of_enqueue_eq_error slots asked, ih, List.length_cons]

theorem accepted_of_full {q : ReadyQueue} (full : q.length = q.capacity) (slots : List Nat) :
    q.accepted slots = [] := by
  have refuses : ∀ slot, q.enqueue slot = .error ⟨slot, q.capacity⟩ :=
    fun slot => enqueue_eq_error_iff.2 ⟨full, rfl⟩
  induction slots with
  | nil => rfl
  | cons slot slots ih => simp only [accepted, refuses, ih]

theorem refused_of_full {q : ReadyQueue} (full : q.length = q.capacity) (slots : List Nat) :
    q.refused slots = slots := by
  have refuses : ∀ slot, q.enqueue slot = .error ⟨slot, q.capacity⟩ :=
    fun slot => enqueue_eq_error_iff.2 ⟨full, rfl⟩
  induction slots with
  | nil => rfl
  | cons slot slots ih => simp only [refused, refuses, ih]

/-- Once a slot is refused, so are all that follow in the same tick. -/
theorem accepted_append_refused (q : ReadyQueue) (slots : List Nat) :
    q.accepted slots ++ q.refused slots = slots := by
  induction slots generalizing q with
  | nil => rfl
  | cons slot slots ih =>
    cases asked : q.enqueue slot with
    | ok longer => simp only [accepted, refused, asked, List.cons_append, ih]
    | error e =>
      have full := (enqueue_eq_error_iff.1 asked).1
      rw [accepted_of_full full, refused_of_full full, List.nil_append]

theorem refused_of_room {q : ReadyQueue} {slots : List Nat}
    (room : q.length + slots.length ≤ q.capacity) : q.refused slots = [] := by
  apply List.eq_nil_of_length_eq_zero
  rw [← fst_enqueueAll]
  simp only [enqueueAll]
  omega

theorem enqueueAll_concat (q : ReadyQueue) (slots : List Nat) (slot : Nat) :
    q.enqueueAll (slots ++ [slot]) =
      ((q.enqueueAll slots).1 + ((q.enqueueAll slots).2.enqueueAll [slot]).1,
        ((q.enqueueAll slots).2.enqueueAll [slot]).2) := by
  induction slots generalizing q with
  | nil => rw [enqueueAll_nil, List.nil_append, Nat.zero_add]
  | cons s slots ih =>
    cases asked : q.enqueue s with
    | ok longer =>
      rw [List.cons_append, enqueueAll_cons_of_enqueue_eq_ok _ asked,
        enqueueAll_cons_of_enqueue_eq_ok _ asked, ih]
    | error e =>
      have full := (enqueue_eq_error_iff.1 asked).1
      rw [List.cons_append, enqueueAll_cons_of_enqueue_eq_error _ asked,
        enqueueAll_cons_of_enqueue_eq_error _ asked, ih, snd_enqueueAll_of_full full,
        snd_enqueueAll_of_full full, Nat.add_right_comm]

end ReadyQueue

/-- What the end of a quantum makes of the record of a running process. -/
def ProcessRecord.endSlice (quantum : Nat) (p : ProcessRecord) : ProcessRecord :=
  if p.sliceUsed < quantum then p else { p with status := .ready }

namespace Machine
variable {m x : Machine} {quantum dropped slot cpu : Nat} {queue : ReadyQueue} {slots : List Nat}

/-- A machine whose queue has been asked for places by some slots, one after another. -/
structure Asked (quantum : Nat) (queue : ReadyQueue) (dropped : Nat) (slots : List Nat)
    (x : Machine) : Prop where
  policy : x.policy = .roundRobin quantum (queue.enqueueAll slots).2
  dropped : x.dropped = dropped + (queue.enqueueAll slots).1

theorem Asked.nil (policy : x.policy = .roundRobin quantum queue) :
    Asked quantum queue x.dropped [] x := by
  refine ⟨?_, ?_⟩ <;> rw [ReadyQueue.enqueueAll_nil]
  · exact policy
  · rfl

theorem Asked.queued (asked : Asked quantum queue dropped slots x) :
    x.queued = queue.slots ++ queue.accepted slots := by
  rw [Machine.queued, asked.policy, ← ReadyQueue.slots_enqueueAll]
  rfl

theorem Asked.sendToQueue (asked : Asked quantum queue dropped slots x) {p : ProcessRecord}
    (found : x.procs[slot]? = some p) :
    Asked quantum queue dropped (slots ++ [slot]) (x.sendToQueue slot) := by
  refine ⟨?_, ?_⟩ <;> rw [ReadyQueue.enqueueAll_concat]
  · cases answer : (queue.enqueueAll slots).2.enqueue slot with
    | ok longer =>
      rw [sendToQueue_of_ok asked.policy answer,
        ReadyQueue.enqueueAll_cons_of_enqueue_eq_ok [] answer, ReadyQueue.enqueueAll_nil]
    | error e =>
      rw [policy_sendToQueue_of_error asked.policy answer, asked.policy,
        ReadyQueue.enqueueAll_cons_of_enqueue_eq_error [] answer]
  · cases answer : (queue.enqueueAll slots).2.enqueue slot with
    | ok longer =>
      rw [sendToQueue_of_ok asked.policy answer,
        ReadyQueue.enqueueAll_cons_of_enqueue_eq_ok [] answer, ReadyQueue.enqueueAll_nil]
      exact asked.dropped
    | error e =>
      rw [sendToQueue_of_error asked.policy answer found,
        ReadyQueue.enqueueAll_cons_of_enqueue_eq_error [] answer, ReadyQueue.enqueueAll_nil]
      exact congrArg (· + 1) asked.dropped

theorem Asked.foldl (asked : Asked quantum queue dropped slots x) (more : List Nat)
    (valid : ∀ slot ∈ more, ∃ p, x.procs[slot]? = some p) :
    Asked quantum queue dropped (slots ++ more) (more.foldl Machine.sendToQueue x) := by
  induction more generalizing x slots with
  | nil => rw [List.append_nil]; exact asked
  | cons slot more ih =>
    obtain ⟨p, found⟩ := valid slot List.mem_cons_self
    have later := ih (asked.sendToQueue found) fun s member => by
      rw [procs_sendToQueue]
      exact valid s (List.mem_cons_of_mem slot member)
    rw [List.append_assoc] at later
    exact later

/-! The end of quanta. -/

/-- The slot that a processor holds, if it has used up a quantum. -/
def expiringAt (quantum : Nat) (m : Machine) (cpu : Nat) : Option Nat :=
  (m.occupant? cpu).bind fun e => if e.2.sliceUsed < quantum then none else some e.1

/-- The slots that have used up a quantum, in the order of their processors. -/
def expiring (quantum : Nat) (m : Machine) : List Nat :=
  (List.range m.cpus.size).filterMap (m.expiringAt quantum)

theorem endSliceAt_of_unused (quantum cpu : Nat) (unused : m.expiringAt quantum cpu = none) :
    endSliceAt quantum cpu m = m := by
  unfold endSliceAt
  unfold expiringAt at unused
  cases occupied : m.occupant? cpu with
  | none => rfl
  | some e =>
    rw [occupied, Option.bind_some] at unused
    dsimp only
    split
    · rfl
    next used => rw [if_neg used] at unused; cases unused

theorem endSliceAt_of_used {p : ProcessRecord} (occupied : m.occupant? cpu = some (slot, p))
    (used : ¬ p.sliceUsed < quantum) : endSliceAt quantum cpu m =
      (m.vacate cpu slot p .ready .expired (.quantumExpired p.pid cpu)).sendToQueue slot := by
  simp only [endSliceAt, occupied, if_neg used]

theorem expiringAt_eq_some : m.expiringAt quantum cpu = some slot ↔
    ∃ p, m.occupant? cpu = some (slot, p) ∧ ¬ p.sliceUsed < quantum := by
  unfold expiringAt
  constructor
  · intro h
    obtain ⟨⟨s, p⟩, occupied, h⟩ := Option.bind_eq_some_iff.1 h
    obtain ⟨used, same⟩ := Option.ite_none_left_eq_some.1 h
    cases same
    exact ⟨p, occupied, used⟩
  · rintro ⟨p, occupied, used⟩
    rw [occupied, Option.bind_some, if_neg used]

theorem endSliceAt_cases (quantum cpu : Nat) (m : Machine) :
    m.expiringAt quantum cpu = none ∧ endSliceAt quantum cpu m = m ∨
      ∃ slot p, m.expiringAt quantum cpu = some slot ∧ m.held cpu = some slot ∧
        m.procs[slot]? = some p ∧ p.endSlice quantum = { p with status := .ready } ∧
        endSliceAt quantum cpu m =
          (m.vacate cpu slot p .ready .expired (.quantumExpired p.pid cpu)).sendToQueue slot := by
  cases ends : m.expiringAt quantum cpu with
  | none => exact .inl ⟨rfl, endSliceAt_of_unused quantum cpu ends⟩
  | some slot =>
    obtain ⟨p, occupied, used⟩ := expiringAt_eq_some.1 ends
    obtain ⟨holds, found⟩ := occupant?_eq_some.1 occupied
    exact .inr ⟨slot, p, rfl, holds, found, if_neg used, endSliceAt_of_used occupied used⟩

theorem visits_endSliceAt (quantum : Nat) :
    Visits (fun _ => ProcessRecord.endSlice quantum) (endSliceAt quantum) where
  now cpu x := by
    rcases endSliceAt_cases quantum cpu x with ⟨-, same⟩ | ⟨slot, p, -, -, -, -, ended⟩
    · rw [same]
    · rw [ended, now_sendToQueue]
      rfl
  elsewhere cpu x c other := by
    rcases endSliceAt_cases quantum cpu x with ⟨-, same⟩ | ⟨slot, p, -, holds, -, -, ended⟩
    · rw [same]
    · rw [ended, held_sendToQueue, held_vacate (held_lt holds), Function.update_of_ne other]
  idle cpu x free := by
    rcases endSliceAt_cases quantum cpu x with ⟨-, same⟩ | ⟨slot, p, -, holds, -⟩
    · rw [same]
    · rw [free] at holds
      cases holds
  busy cpu x slot p holds found := by
    rcases endSliceAt_cases quantum cpu x with ⟨ends, same⟩ | ⟨s, q, -, holds', found', ends, ended⟩
    · have unused : p.sliceUsed < quantum := by
        by_contra used
        have ends' := expiringAt_eq_some.2 ⟨p, occupant?_eq_some.2 ⟨holds, found⟩, used⟩
        rw [ends] at ends'
        cases ends'
      obtain ⟨inside, rfl⟩ := List.getElem?_eq_some_iff.1 found
      rw [same, ProcessRecord.endSlice, if_pos unused, List.set_getElem_self]
    · cases holds.symm.trans holds'
      cases found.symm.trans found'
      rw [ended, procs_sendToQueue, ends]
      rfl

theorem endSlices_of_unused (unused : ∀ cpu, m.expiringAt quantum cpu = none) :
    m.endSlices quantum = m := by
  refine atEachCpu_induction (P := fun _ x => x = m) rfl ?_
  rintro cpu x - rfl
  exact endSliceAt_of_unused quantum cpu (unused cpu)

theorem procs_endSlices (h : Consistent m) (quantum : Nat) :
    (m.endSlices quantum).procs =
      m.procs.map fun p => if p.isRunning then p.endSlice quantum else p :=
  (visits_endSliceAt quantum).procs_round h

/-- The end of quanta asks the queue for the expiring slots, in the order of their processors. -/
theorem Asked.endSlices (h : Consistent m) (asked : Asked quantum queue dropped slots m) :
    Asked quantum queue dropped (slots ++ m.expiring quantum) (m.endSlices quantum) := by
  have round : HalfVisited (fun _ => ProcessRecord.endSlice quantum) m m.cpus.size
        (m.endSlices quantum) ∧
      Asked quantum queue dropped (slots ++ m.expiring quantum) (m.endSlices quantum) := by
    refine atEachCpu_induction (P := fun n x =>
      HalfVisited (fun _ => ProcessRecord.endSlice quantum) m n x ∧ Asked quantum queue dropped
        (slots ++ (List.range n).filterMap (m.expiringAt quantum)) x) ⟨.start m, ?_⟩ ?_
    · rw [List.range_zero, List.filterMap_nil, List.append_nil]
      exact asked
    · rintro cpu x - ⟨half, asked⟩
      refine ⟨half.next h (visits_endSliceAt quantum), ?_⟩
      -- the occupant of a processor that is still to be visited stands as at the start
      have same_end : x.expiringAt quantum cpu = m.expiringAt quantum cpu := by
        rw [expiringAt, half.occupant? h, expiringAt]
      rw [List.range_succ, List.filterMap_append, ← List.append_assoc]
      rcases endSliceAt_cases quantum cpu x with ⟨ends, same⟩ | ⟨slot, p, ends, -, found, -, ended⟩
      · rw [same, List.filterMap_cons_none (same_end ▸ ends), List.filterMap_nil, List.append_nil]
        exact asked
      · have vacated : Asked quantum queue dropped
            (slots ++ (List.range cpu).filterMap (m.expiringAt quantum))
            (x.vacate cpu slot p .ready .expired (.quantumExpired p.pid cpu)) :=
          ⟨asked.policy, asked.dropped⟩
        have inside := (List.getElem?_eq_some_iff.1 found).1
        rw [ended, List.filterMap_cons_some (same_end ▸ ends), List.filterMap_nil]
        exact vacated.sendToQueue (List.getElem?_set_self inside)
  exact round.2

theorem dispatchedPids_endSlices (m : Machine) (quantum : Nat) :
    (m.endSlices quantum).trace.dispatchedPids = m.trace.dispatchedPids := by
  refine atEachCpu_keeps (f := fun x => x.trace.dispatchedPids) fun cpu x => ?_
  rcases endSliceAt_cases quantum cpu x with ⟨-, same⟩ | ⟨slot, p, -, -, -, -, ended⟩
  · rw [same]
  · rw [ended, trace_sendToQueue, vacate, Trace.dispatchedPids_push, if_neg (by simp),
      List.append_nil]

theorem running_of_mem_expiring {slot : Nat} (h : Consistent m) (member : slot ∈ m.expiring quantum) :
    ∃ cpu, m.status? slot = some (.running cpu) := by
  obtain ⟨cpu, -, ends⟩ := List.mem_filterMap.1 member
  obtain ⟨p, occupied, -⟩ := expiringAt_eq_some.1 ends
  exact ⟨cpu, (h.matching cpu slot).1 (occupant?_eq_some.1 occupied).1⟩

theorem nodup_expiring (h : Consistent m) (quantum : Nat) : (m.expiring quantum).Nodup := by
  refine List.nodup_range.filterMap fun cpu cpu' slot ends ends' => ?_
  obtain ⟨p, occupied, -⟩ := expiringAt_eq_some.1 (Option.mem_def.1 ends)
  obtain ⟨p', occupied', -⟩ := expiringAt_eq_some.1 (Option.mem_def.1 ends')
  have runs := (h.matching cpu slot).1 (occupant?_eq_some.1 occupied).1
  have runs' := (h.matching cpu' slot).1 (occupant?_eq_some.1 occupied').1
  exact Status.running.inj (Option.some.inj (runs.symm.trans runs'))

/-- The end of quanta makes the expiring slots ready and leaves all others as they stand. -/
theorem status?_endSlices (h : Consistent m) (quantum slot : Nat) :
    (m.endSlices quantum).status? slot =
      if slot ∈ m.expiring quantum then some .ready else m.status? slot := by
  rw [status?, procs_endSlices h, List.getElem?_map, Option.map_map]
  cases found : m.procs[slot]? with
  | none =>
    rw [if_neg, status?, found]
    · rfl
    · intro member
      obtain ⟨cpu, runs⟩ := running_of_mem_expiring h member
      rw [status?, found] at runs
      cases runs
  | some p =>
    rw [Option.map_some, Function.comp_apply, status?_of_getElem? found]
    by_cases member : slot ∈ m.expiring quantum
    · rw [if_pos member]
      obtain ⟨cpu, -, ends⟩ := List.mem_filterMap.1 member
      obtain ⟨q, occupied, used⟩ := expiringAt_eq_some.1 ends
      obtain ⟨holds, found'⟩ := occupant?_eq_some.1 occupied
      cases found.symm.trans found'
      have running := ProcessRecord.isRunning_iff.2 ⟨cpu, h.running_of_held holds found⟩
      rw [if_pos running, ProcessRecord.endSlice, if_neg used]
    · rw [if_neg member]
      by_cases running : p.isRunning = true
      · obtain ⟨cpu, at_cpu⟩ := ProcessRecord.isRunning_iff.1 running
        have holds := (h.matching cpu slot).2 (by rw [status?_of_getElem? found, at_cpu])
        have unused : p.sliceUsed < quantum := by
          by_contra used
          have ends := expiringAt_eq_some.2 ⟨p, occupant?_eq_some.2 ⟨holds, found⟩, used⟩
          exact member (List.mem_filterMap.2 ⟨cpu, List.mem_range.2 (held_lt holds), ends⟩)
        rw [if_pos running, ProcessRecord.endSlice, if_pos unused]
      · rw [if_neg running]

end Machine
end CpuScheduling
