import CpuScheduling.Proofs.Execution
import CpuScheduling.Proofs.Lifecycle
import CpuScheduling.Proofs.Portions
/-!
Promptness of taking turns. The processors give a known number of turns within a number of ticks,
and more only if a process finishes early. Who stands in the queue has fewer processes before him
than turns are given until his first one is due, and each tick that serves the front of the queue
keeps it so.
-/
namespace CpuScheduling.Machine
variable {m x y : Machine} {quantum delay d k cpu slot : Nat} {p : ProcessRecord}
  {queue : ReadyQueue}

/-- The part of a quantum that is spent on a processor: all of it where nobody runs. -/
def sliceSpent (quantum : Nat) (m : Machine) (cpu : Nat) : Nat :=
  (m.occupant? cpu).elim quantum fun e => min e.2.sliceUsed quantum

/-- The turns that come up in this tick and the `d` ticks after it if every slice lasts its
quantum. -/
def turns (quantum d : Nat) (m : Machine) : Nat :=
  ((List.range m.cpus.size).map fun cpu => (d + m.sliceSpent quantum cpu) / quantum).sum

/-! What is spent of the slices. -/

theorem sliceSpent_of_idle (free : m.held cpu = none) : m.sliceSpent quantum cpu = quantum := by
  rw [sliceSpent, occupant?_eq_none free]
  rfl

theorem sliceSpent_of_held (holds : m.held cpu = some slot) (found : m.procs[slot]? = some p) :
    m.sliceSpent quantum cpu = min p.sliceUsed quantum := by
  rw [sliceSpent, occupant?_eq_some.2 ⟨holds, found⟩]
  rfl

theorem sliceSpent_congr (held : y.held cpu = x.held cpu)
    (used : y.procs.map (·.sliceUsed) = x.procs.map (·.sliceUsed)) :
    y.sliceSpent quantum cpu = x.sliceSpent quantum cpu := by
  have spent_eq : ∀ z : Machine, z.sliceSpent quantum cpu =
      ((z.held cpu).bind fun slot => (z.procs.map (·.sliceUsed))[slot]?).elim quantum
        fun used => min used quantum := by
    intro z
    show (((z.held cpu).bind fun slot => z.procs[slot]?.map fun p => (slot, p)).elim _ _) = _
    cases z.held cpu with
    | none => rfl
    | some slot =>
      simp only [Option.bind_some, List.getElem?_map]
      cases z.procs[slot]? <;> rfl
  rw [spent_eq, spent_eq, held, used]

theorem turns_congr (size : y.cpus.size = x.cpus.size)
    (spent : ∀ cpu, y.sliceSpent quantum cpu = x.sliceSpent quantum cpu) (d : Nat) :
    y.turns quantum d = x.turns quantum d := by
  rw [turns, turns, size]
  simp only [spent]

theorem sliceUsed_enroll (p : ProcessRecord) (algorithm : Algorithm) (now : Nat) :
    (p.enroll algorithm now).sliceUsed = p.sliceUsed := by
  rcases p.enroll_cases algorithm now with same | ⟨-, -, ready⟩
  · rw [same]
  · rw [ready]

/-! Before processors are filled: who loses one has spent his quantum. -/

theorem turns_enqueued (m : Machine) (quantum d : Nat) :
    m.enqueued.turns quantum d = m.turns quantum d := by
  have asked : ∀ z slot, (sendToQueue z slot).turns quantum d = z.turns quantum d := by
    intro z slot
    apply turns_congr (congrArg Array.size (cpus_sendToQueue z slot))
    intro cpu
    apply sliceSpent_congr
    · rw [held_sendToQueue]
    · rw [procs_sendToQueue]
  have enrolled : m.enrolled.turns quantum d = m.turns quantum d := by
    refine turns_congr (x := m) (y := m.enrolled) rfl (fun cpu => sliceSpent_congr rfl ?_) d
    rw [procs_enrolled, List.map_map]
    exact List.map_congr_left fun p _ => sliceUsed_enroll p _ _
  exact (foldl_sendToQueue_keeps asked m.arriving m.enrolled).trans enrolled

theorem turns_endSliceAt (quantum d cpu : Nat) (m : Machine) :
    (endSliceAt quantum cpu m).turns quantum d = m.turns quantum d := by
  cases ends : m.expiringAt quantum cpu with
  | none => rw [endSliceAt_of_unused quantum cpu ends]
  | some slot =>
    obtain ⟨p, occupied, used⟩ := expiringAt_eq_some.1 ends
    obtain ⟨holds, found⟩ := occupant?_eq_some.1 occupied
    have held : (endSliceAt quantum cpu m).held = Function.update m.held cpu none := by
      rw [endSliceAt_of_used occupied used, held_sendToQueue, held_vacate (held_lt holds)]
    have size : (endSliceAt quantum cpu m).cpus.size = m.cpus.size := by
      rw [endSliceAt_of_used occupied used, cpus_sendToQueue, size_cpus_vacate]
    have procs : (endSliceAt quantum cpu m).procs =
        m.procs.set slot { p with status := .ready } := by
      rw [endSliceAt_of_used occupied used, procs_sendToQueue]
      rfl
    apply turns_congr size
    intro c
    by_cases here : c = cpu
    · subst here
      rw [sliceSpent_of_idle (by rw [held, Function.update_self]), sliceSpent_of_held holds found]
      omega
    · apply sliceSpent_congr
      · rw [held, Function.update_of_ne here]
      · rw [procs]
        exact map_set_of_eq found rfl

theorem turns_rescheduled (policy : m.policy = .roundRobin quantum queue) (d : Nat) :
    m.rescheduled.turns quantum d = m.turns quantum d := by
  have ended : (m.enqueued.endSlices quantum).turns quantum d = m.enqueued.turns quantum d :=
    atEachCpu_keeps (f := fun z => z.turns quantum d) (turns_endSliceAt quantum d)
  rw [rescheduled_eq_endSlices policy, ended, turns_enqueued]

/-! Filling: each dispatch takes one turn. -/

theorem sliceSpent_dispatch_of_ne (h : Matching x.held x.status?)
    (found : x.procs[slot]? = some p) (pending : p.status = .waiting ∨ p.status = .ready)
    {c : Nat} (other : c ≠ cpu) :
    (x.dispatch cpu slot).sliceSpent quantum c = x.sliceSpent quantum c := by
  have held := held_dispatch_of_ne x cpu slot other
  cases holds : x.held c with
  | none => rw [sliceSpent_of_idle holds, sliceSpent_of_idle (held.trans holds)]
  | some s =>
    obtain ⟨q, at_slot, running⟩ := status?_eq_some.1 ((h c s).1 holds)
    have apart : s ≠ slot := by
      rintro rfl
      cases at_slot.symm.trans found
      exact ProcessRecord.not_pending running nofun nofun pending
    have kept : (x.dispatch cpu slot).procs[s]? = some q :=
      (getElem?_procs_dispatch_of_ne x cpu slot apart).trans at_slot
    rw [sliceSpent_of_held holds at_slot, sliceSpent_of_held (held.trans holds) kept]

theorem turns_dispatch (h : Matching x.held x.status?) (some_time : 0 < quantum)
    (idle : x.isIdleAt cpu = true) (found : x.procs[slot]? = some p)
    (pending : p.status = .waiting ∨ p.status = .ready) (d : Nat) :
    (x.dispatch cpu slot).turns quantum d + 1 = x.turns quantum d := by
  obtain ⟨inside, free⟩ := isIdleAt_iff.1 idle
  have once : (List.range x.cpus.size).countP (· == cpu) = 1 :=
    List.count_eq_one_of_mem List.nodup_range (List.mem_range.2 inside)
  rw [turns, turns, size_cpus_dispatch, ← once]
  refine sum_map_add_countP fun c _ => ?_
  by_cases here : c = cpu
  · subst here
    have holds : (x.dispatch c slot).held c = some slot := by
      rw [held_dispatch found inside, Function.update_self]
    have spent : (x.dispatch c slot).sliceSpent quantum c = 0 := by
      rw [sliceSpent_of_held holds (getElem?_procs_dispatch found)]
      exact Nat.zero_min quantum
    rw [spent, sliceSpent_of_idle free, Nat.add_zero, Nat.add_div_right d some_time]
    simp
  · rw [sliceSpent_dispatch_of_ne h found pending here]
    simp [here]

theorem turns_occupyThese (h : Consistent m) (turnwise : m.policy.algorithm = .roundRobin)
    (some_time : 0 < quantum) (d : Nat) (cpus : List Nat) :
    (m.occupyThese cpus).turns quantum d + m.queued.length =
      m.turns quantum d + (m.occupyThese cpus).queued.length := by
  refine occupyThese_induction
    (P := fun _ x y => Consistent x → x.policy.algorithm = .roundRobin →
      y.turns quantum d + x.queued.length = x.turns quantum d + y.queued.length)
    ?nil ?busy ?exhausted ?served cpus m h turnwise
  case nil => exact fun _ _ _ => rfl
  case busy => exact fun _ _ _ _ ih => ih
  case exhausted =>
    intro _ _ x _ no_choice _ _
    rw [choose_of_no_choice no_choice]
  case served =>
    intro cpu _ x slot idle chosen ih h turnwise
    obtain ⟨p, found, pending, -, -⟩ := pending_of_choose h chosen
    obtain ⟨shape, turnwise'⟩ := queued_choose turnwise
    have taken := turns_dispatch (x := x.choose.2) h.matching some_time idle found pending d
    have same : x.choose.2.turns quantum d = x.turns quantum d := rfl
    have shorter : x.queued.length = x.choose.2.queued.length + 1 := by
      rw [shape, chosen]
      simp
    have later := ih (h.moves (moves_assign h idle chosen)) (by rwa [policy_dispatch])
    rw [queued_dispatch] at later
    omega

/-! The tick that passes: every slice grows by it, or its processor is left. -/

theorem steadfast_short (some_time : 0 < quantum) :
    ProcessRecord.Steadfast fun p => p.isRunning = true → p.sliceUsed < quantum where
  stand p status off _ running := by
    rcases off with rfl | rfl <;> cases running
  dispatch _ _ _ _ _ := some_time

theorem AtRest.sliceUsed_lt (rest : AtRest m) (policy : m.policy = .roundRobin quantum queue)
    (some_time : 0 < quantum) :
    ∀ p ∈ m.occupied.procs, p.isRunning = true → p.sliceUsed < quantum := by
  refine (moves_occupyIdle rest.consistent_rescheduled).forall_procs (steadfast_short some_time) ?_
  intro q member running
  rw [rescheduled_eq_endSlices policy, procs_endSlices rest.consistent_enqueued] at member
  obtain ⟨p, -, rfl⟩ := List.mem_map.1 member
  split at running
  next runs =>
    rw [if_pos runs]
    exact ProcessRecord.sliceUsed_endSlice_lt running
  next off => exact absurd running off

theorem AtRest.sliceSpent_step (rest : AtRest m) (holds : m.occupied.held cpu = some slot)
    (found : m.occupied.procs[slot]? = some p) (short : p.sliceUsed < quantum) :
    p.sliceUsed + 1 ≤ m.step.sliceSpent quantum cpu := by
  have running := rest.consistent_occupied.running_of_held holds found
  cases holds' : m.step.held cpu with
  | none =>
    rw [sliceSpent_of_idle holds']
    exact short
  | some s =>
    obtain ⟨q, found', running'⟩ := rest.step.slot_lt_of_held holds'
    rw [rest.procs_step, List.getElem?_map, Option.map_eq_some_iff] at found'
    obtain ⟨r, at_slot, rfl⟩ := found'
    -- who runs after the tick ran on the same processor in it
    have ran := (ProcessRecord.status_pass_running.1 running').1
    have same : s = slot := by
      have held := (rest.consistent_occupied.matching cpu s).2
        (status?_eq_some.2 ⟨r, at_slot, ran⟩)
      exact Option.some.inj (held.symm.trans holds)
    subst same
    cases at_slot.symm.trans found
    have later : m.step.procs[s]? = some (p.pass m.now) := by
      rw [rest.procs_step, List.getElem?_map, found]
      rfl
    have used : (p.pass m.now).sliceUsed = p.sliceUsed + 1 := by
      rw [ProcessRecord.pass, if_pos (ProcessRecord.isRunning_iff.2 ⟨cpu, running⟩),
        p.sliceUsed_work]
    rw [sliceSpent_of_held holds' later, used]
    omega

section Busy
variable (rest : AtRest m) (policy : m.policy = .roundRobin quantum queue)
  (some_time : 0 < quantum) (busy : ∀ cpu < m.cpus.size, m.occupied.held cpu ≠ none)
include rest policy some_time busy

theorem AtRest.sliceSpent_occupied (inside : cpu < m.cpus.size) :
    m.occupied.sliceSpent quantum cpu < quantum ∧
      m.occupied.sliceSpent quantum cpu + 1 ≤ m.step.sliceSpent quantum cpu := by
  obtain ⟨slot, holds⟩ := Option.ne_none_iff_exists'.1 (busy cpu inside)
  obtain ⟨p, found, running⟩ := rest.consistent_occupied.slot_lt_of_held holds
  have short := rest.sliceUsed_lt policy some_time p (List.mem_of_getElem? found)
    (ProcessRecord.isRunning_iff.2 ⟨cpu, running⟩)
  rw [sliceSpent_of_held holds found, Nat.min_eq_left (Nat.le_of_lt short)]
  exact ⟨short, rest.sliceSpent_step holds found short⟩

theorem AtRest.turns_occupied_zero : m.occupied.turns quantum 0 = 0 := by
  rw [turns, rest.size_cpus_occupied]
  refine List.sum_eq_zero fun n member => ?_
  obtain ⟨cpu, inside, rfl⟩ := List.mem_map.1 member
  rw [Nat.zero_add]
  exact Nat.div_eq_of_lt
    (rest.sliceSpent_occupied policy some_time busy (List.mem_range.1 inside)).1

theorem AtRest.turns_occupied_le (d : Nat) :
    m.occupied.turns quantum (d + 1) ≤ m.step.turns quantum d := by
  rw [turns, turns, rest.size_cpus_occupied, rest.size_cpus_step]
  refine List.sum_le_sum fun cpu inside => Nat.div_le_div_right ?_
  have grown := (rest.sliceSpent_occupied policy some_time busy (List.mem_range.1 inside)).2
  omega

end Busy

section Tick
variable (rest : AtRest m) (policy : m.policy = .roundRobin quantum queue)
include rest policy

/-- With as many processes before somebody as were served and are left, his turn comes after at
least one more tick, and no later for it. -/
theorem AtRest.turns_left (some_time : 0 < quantum) (waits : k < m.step.queued.length)
    (due : m.served.length + k < m.turns quantum d) :
    ∃ e, d = e + 1 ∧ k < m.step.turns quantum e := by
  have turnwise : m.rescheduled.policy.algorithm = .roundRobin := by
    rw [(rest.asked_rescheduled policy).policy]
    rfl
  have served : m.served ++ m.occupied.queued = m.rescheduled.queued :=
    queued_occupyThese rest.consistent_rescheduled List.nodup_range turnwise
  have taken : m.occupied.turns quantum d + m.rescheduled.queued.length =
      m.rescheduled.turns quantum d + m.occupied.queued.length :=
    turns_occupyThese rest.consistent_rescheduled turnwise some_time d _
  rw [turns_rescheduled policy, ← served, List.length_append] at taken
  rw [queued_step] at waits
  have busy : ∀ cpu < m.cpus.size, m.occupied.held cpu ≠ none := by
    intro cpu inside free
    have idle : m.occupied.isIdleAt cpu = true :=
      isIdleAt_iff.2 ⟨rest.size_cpus_occupied.symm ▸ inside, free⟩
    rw [queued_eq_nil_of_choose (rest.idle_occupied idle).2] at waits
    cases waits
  cases d with
  | zero =>
    have none_left := rest.turns_occupied_zero policy some_time busy
    omega
  | succ e =>
    have later := rest.turns_occupied_le policy some_time busy e
    exact ⟨e, rfl, by omega⟩

end Tick

/-! Arrivals: who is present is queued, arrives, or runs. -/

theorem AtRest.length_present_le (rest : AtRest m) :
    (m.queued ++ m.arriving).length + m.heldSlots.length ≤ m.procs.length := by
  have queued_ready : ∀ slot ∈ m.queued, m.status? slot = some .ready := rest.queued_ready
  have arriving_waiting : ∀ slot ∈ m.arriving, m.status? slot = some .waiting := by
    intro slot arrives
    obtain ⟨p, found, -, waiting⟩ := rest.waiting_of_arriving arrives
    exact status?_eq_some.2 ⟨p, found, waiting⟩
  have held_running : ∀ slot ∈ m.heldSlots, ∃ cpu, m.status? slot = some (.running cpu) := by
    intro slot member
    obtain ⟨cpu, holds⟩ := mem_heldSlots.1 member
    exact ⟨cpu, (rest.matching cpu slot).1 holds⟩
  have nodup : (m.queued ++ m.arriving ++ m.heldSlots).Nodup := by
    refine List.nodup_append.2 ⟨List.nodup_append.2 ⟨rest.queued_nodup, m.nodup_arriving, ?_⟩,
      rest.nodup_heldSlots, ?_⟩
    · rintro slot waits _ arrives rfl
      exact rest.unqueued_of_arriving arrives waits
    · rintro slot member _ runs rfl
      obtain ⟨cpu, running⟩ := held_running slot runs
      rcases List.mem_append.1 member with waits | arrives
      · cases (queued_ready slot waits).symm.trans running
      · cases (arriving_waiting slot arrives).symm.trans running
  have inside : ∀ slot ∈ m.queued ++ m.arriving ++ m.heldSlots,
      slot ∈ List.range m.procs.length := by
    intro slot member
    rw [List.mem_range]
    rcases List.mem_append.1 member with present | runs
    · rcases List.mem_append.1 present with waits | arrives
      · exact lt_of_status? (queued_ready slot waits)
      · exact lt_of_status? (arriving_waiting slot arrives)
    · obtain ⟨cpu, running⟩ := held_running slot runs
      exact lt_of_status? running
  have bound := nodup.length_le_of_subset inside
  rwa [List.length_append, List.length_range] at bound

/-- In so many quanta every processor gives a turn for each of them, and one more if it is free. -/
theorem size_mul_le_turns (m : Machine) (some_time : 0 < quantum) (e : Nat) :
    m.cpus.size * (e + 1) ≤ m.turns quantum (e * quantum) + m.heldSlots.length := by
  have held_count : m.heldSlots.length =
      (List.range m.cpus.size).countP fun cpu => (m.held cpu).isSome := by
    rw [heldSlots, List.length_filterMap_eq_countP]
  have total : m.turns quantum (e * quantum) +
      (List.range m.cpus.size).countP (fun cpu => (m.held cpu).isSome) =
        ((List.range m.cpus.size).map fun cpu =>
          (e * quantum + m.sliceSpent quantum cpu) / quantum +
            if (m.held cpu).isSome then 1 else 0).sum :=
    sum_map_add_countP fun _ _ => rfl
  have each : ∀ cpu ∈ List.range m.cpus.size,
      e + 1 ≤ (e * quantum + m.sliceSpent quantum cpu) / quantum +
        if (m.held cpu).isSome then 1 else 0 := by
    intro cpu _
    rw [Nat.add_comm (e * quantum), Nat.add_mul_div_right _ _ some_time]
    cases holds : m.held cpu with
    | none =>
      rw [sliceSpent_of_idle holds, Nat.div_self some_time]
      exact Nat.le_of_eq (Nat.add_comm e 1)
    | some slot =>
      exact Nat.succ_le_succ (Nat.le_add_left e _)
  have whole := List.sum_le_sum each
  rw [List.map_const', List.sum_replicate_nat, List.length_range] at whole
  rwa [held_count, total]

theorem AtRest.turn_of_arrival (rest : AtRest m) (some_time : 0 < quantum)
    (size : 0 < m.cpus.size) (present : k < (m.queued ++ m.arriving).length) :
    k < m.turns quantum ((m.procs.length - 1) / m.cpus.size * quantum) := by
  have crowd := rest.length_present_le
  have given := m.size_mul_le_turns some_time ((m.procs.length - 1) / m.cpus.size)
  have enough := Nat.lt_mul_div_succ (m.procs.length - 1) size
  omega

/-! From tick to tick: who has not started keeps a turn that comes in time. -/

/-- Who is in the queue and has not started has his first turn within `delay` ticks of his
arrival. -/
def Prompt (quantum delay : Nat) (m : Machine) : Prop :=
  ∀ (k slot : Nat) p, m.queued[k]? = some slot → m.procs[slot]? = some p → p.start = none →
    ∃ d, m.now + d = p.arrival + delay ∧ k < m.turns quantum d

theorem AtRest.unstarted_of_step (rest : AtRest m) (policy : m.policy = .roundRobin quantum queue)
    {q : ProcessRecord} (before : m.procs[slot]? = some p) (after : m.step.procs[slot]? = some q)
    (unstarted : q.start = none) : p.start = none := by
  obtain ⟨fresh, entered⟩ := rest.entered_occupied fun srtf => by rw [policy] at srtf; cases srtf
  have later : m.step.startOf slot = q.start := by rw [startOf, after]; rfl
  have sooner : m.startOf slot = p.start := by rw [startOf, before]; rfl
  rw [rest.startOf_step, entered.startOf_eq, unstarted] at later
  exact sooner ▸ (Option.or_eq_none_iff.1 later).1

section Tick
variable (rest : AtRest m) (policy : m.policy = .roundRobin quantum queue)
  (kept : queue.refused (m.requests quantum) = [])
include rest policy kept

theorem AtRest.getElem?_asking (waits : m.step.queued[k]? = some slot) :
    (m.queued ++ m.arriving ++ m.enqueued.expiring quantum)[m.served.length + k]? = some slot := by
  have accepted : queue.accepted (m.requests quantum) = m.requests quantum := by
    have all := queue.accepted_append_refused (m.requests quantum)
    rwa [kept, List.append_nil] at all
  rw [List.append_assoc, ← requests_eq, ← accepted, ← rest.served_append_queued policy,
    List.getElem?_append_right (Nat.le_add_right _ _), Nat.add_sub_cancel_left, waits]

/-- One who has not started was in the queue before the tick or has arrived in it, and did not come
back from a processor. -/
theorem AtRest.lt_of_unstarted (waits : m.step.queued[k]? = some slot)
    (before : m.procs[slot]? = some p) (unstarted : p.start = none) (first : p.StartsFirst) :
    m.served.length + k < (m.queued ++ m.arriving).length := by
  by_contra beyond
  have asks := rest.getElem?_asking policy kept waits
  rw [List.getElem?_append_right (Nat.le_of_not_lt beyond)] at asks
  obtain ⟨cpu, running⟩ := running_of_mem_expiring rest.consistent_enqueued
    (List.mem_of_getElem? asks)
  have moved : Status.running cpu ≠ .waiting := nofun
  have off : Status.running cpu ≠ .ready := nofun
  rw [status?_enqueued, status?_enrolled, before, Option.map_some, Option.some.injEq,
    p.status_enroll _ _ moved off] at running
  exact ProcessRecord.not_pending running moved off (first unstarted)

theorem Prompt.step (prompt : m.Prompt quantum delay) (some_time : 0 < quantum)
    (size : 0 < m.cpus.size)
    (delay_eq : delay = (m.procs.length - 1) / m.cpus.size * quantum)
    (first : ∀ p ∈ m.procs, p.StartsFirst) : m.step.Prompt quantum delay := by
  intro k slot q waits after unstarted
  obtain ⟨p, before, same⟩ : ∃ p, m.procs[slot]? = some p ∧ p.toJob = q.toJob :=
    rest.exists_record (n := 1) after 0
  have unstarted' := rest.unstarted_of_step policy before after unstarted
  have present := rest.lt_of_unstarted policy kept waits before unstarted'
    (first p (List.mem_of_getElem? before))
  have asks := rest.getElem?_asking policy kept waits
  rw [List.getElem?_append_left present] at asks
  have due : ∃ d, m.now + d = p.arrival + delay ∧ m.served.length + k < m.turns quantum d := by
    by_cases queued : m.served.length + k < m.queued.length
    · rw [List.getElem?_append_left queued] at asks
      exact prompt _ slot p asks before unstarted'
    · rw [List.getElem?_append_right (Nat.le_of_not_lt queued)] at asks
      obtain ⟨r, at_slot, at_once⟩ := mem_arriving.1 (List.mem_of_getElem? asks)
      cases at_slot.symm.trans before
      exact ⟨delay, by rw [at_once], delay_eq ▸ rest.turn_of_arrival some_time size present⟩
  obtain ⟨d, time, due⟩ := due
  obtain ⟨inside, -⟩ := List.getElem?_eq_some_iff.1 waits
  obtain ⟨e, rfl, left⟩ := rest.turns_left policy some_time inside due
  have arrival : p.arrival = q.arrival := congrArg (·.arrival) same
  exact ⟨e, by rw [rest.now_step, ← arrival]; omega, left⟩

end Tick

/-! Whole runs. -/
section Run
variable {start : Machine} (prompt : start.Prompt quantum delay) (o : Outset start)
  (policy : start.policy = .roundRobin quantum queue)
  (room : start.procs.length ≤ queue.capacity) (some_time : 0 < quantum)
  (size : 0 < start.cpus.size)
  (delay_eq : delay = (start.procs.length - 1) / start.cpus.size * quantum) {n : Nat}
include prompt o policy room some_time size delay_eq

theorem Prompt.steps (n : Nat) : (start.steps n).Prompt quantum delay := by
  induction n with
  | zero => exact prompt
  | succ n ih =>
    have rest := o.toAtRest.steps n
    obtain ⟨later, policy'⟩ := o.toAtRest.policy_steps policy n
    have capacity := o.toAtRest.capacity_steps policy policy'
    have l := o.ledger.steps o.toAtRest policy n
    have kept : later.refused ((start.steps n).requests quantum) = [] := by
      apply l.refused_of_room rest policy'
      rwa [o.toAtRest.length_procs_steps, capacity]
    rw [steps_succ]
    refine ih.step rest policy' kept some_time ?_ ?_ ?_
    · rwa [o.toAtRest.size_cpus_steps]
    · rwa [o.toAtRest.length_procs_steps, o.toAtRest.size_cpus_steps]
    · intro p member
      obtain ⟨slot, found⟩ := List.mem_iff_getElem?.1 member
      exact o.startsFirst found

/-- Who has arrived and not started is in the queue, where his turn is still to come. -/
theorem Outset.le_arrival_add (found : (start.steps n).procs[slot]? = some p)
    (unstarted : p.start = none) (arrived : p.arrival < n) : n ≤ p.arrival + delay := by
  have prompt' := prompt.steps o policy room some_time size delay_eq n
  have l := o.ledger.steps o.toAtRest policy n
  have ready : p.status = .ready := by
    rcases o.startsFirst found unstarted with waiting | ready
    · exact absurd waiting (l.enrolled slot p found ((o.now_steps n).symm ▸ arrived))
    · exact ready
  have queued : slot ∈ (start.steps n).queued := by
    rcases (l.ready_iff slot).1 (status?_eq_some.2 ⟨p, found, ready⟩) with waits | lost
    · exact waits
    · rw [TurnLog.append, o.ledger.refused_turnLog o.toAtRest policy room] at lost
      cases lost
  obtain ⟨k, place⟩ := List.mem_iff_getElem?.1 queued
  obtain ⟨d, time, -⟩ := prompt' k slot p place found unstarted
  rw [o.now_steps] at time
  omega

/-- Just before his first dispatch a process has not started yet, so it came in time. -/
theorem Outset.start_le {t : Nat} (found : (start.steps n).procs[slot]? = some p)
    (started : p.start = some t) : t ≤ p.arrival + delay := by
  obtain ⟨r, at_slot, same, unstarted⟩ := o.exists_unstarted found started
  have arrival : r.arrival = p.arrival := congrArg (·.arrival) same
  rw [← arrival]
  by_cases early : r.arrival < t
  · exact o.le_arrival_add prompt policy room some_time size delay_eq at_slot unstarted early
  · omega

end Run

/-- Nobody waits longer than `bound` for his first dispatch: neither who has had it nor, so far, who
has arrived without it. -/
structure RespondsWithin (bound : Nat) (start : Machine) (n : Nat) : Prop where
  dispatched : ∀ (slot : Nat) p, (start.steps n).procs[slot]? = some p →
    start.dispatchesOf n slot ≠ [] → ∃ r, p.response = some r ∧ r ≤ bound
  pending : ∀ (slot : Nat) p, (start.steps n).procs[slot]? = some p →
    start.dispatchesOf n slot = [] → p.arrival < (start.steps n).now →
      (start.steps n).now - p.arrival ≤ bound

theorem Outset.respondsWithin {start : Machine} (o : Outset start)
    (policy : start.policy = .roundRobin quantum queue)
    (room : start.procs.length ≤ queue.capacity) (some_time : 0 < quantum)
    (size : 0 < start.cpus.size) (none_queued : start.queued = []) (n : Nat) :
    RespondsWithin ((start.procs.length - 1) / start.cpus.size * quantum) start n := by
  have prompt : start.Prompt quantum ((start.procs.length - 1) / start.cpus.size * quantum) := by
    intro k slot p waits
    rw [none_queued] at waits
    cases waits
  constructor
  case dispatched =>
    intro slot p found dispatched
    obtain ⟨d, more, dispatches⟩ := List.exists_cons_of_ne_nil dispatched
    have started : p.start = some d.tick := by
      rw [o.start_eq found, dispatches]
      rfl
    have in_time := o.start_le prompt policy room some_time size rfl found started
    refine ⟨d.tick - p.arrival, ?_, by omega⟩
    rw [o.response_eq found, started]
    rfl
  case pending =>
    intro slot p found undispatched arrived
    have unstarted : p.start = none := by
      rw [o.start_eq found, undispatched]
      rfl
    rw [o.now_steps] at arrived ⊢
    have in_time := o.le_arrival_add prompt policy room some_time size rfl found unstarted arrived
    omega

/-- Round robin gives everybody a first turn soon: with a place in the queue for each process, the
time from an arrival to the first dispatch, or to now while there was none, is less than one
quantum for each further process that a processor has to share, and one more. -/
theorem round_robin_response (s : Scenario) (bursts : ∀ job ∈ s.jobs, 0 < job.burst)
    {quantum : Nat} (some_time : 0 < quantum) {capacity : Nat} (room : s.jobs.length ≤ capacity)
    (n : Nat) :
    RespondsWithin (((s.jobs.length - 1) / s.cpus + 1) * quantum - 1)
      (boot s (.fresh .roundRobin quantum capacity)) n := by
  have length : (boot s (.fresh .roundRobin quantum capacity)).procs.length = s.jobs.length :=
    ProcessTable.length_ofJobs s.jobs
  have size : (boot s (.fresh .roundRobin quantum capacity)).cpus.size = s.cpus :=
    Array.size_replicate
  have within := (outset_boot s bursts .roundRobin quantum capacity).respondsWithin rfl
    (length.symm ▸ room) some_time (size.symm ▸ s.cpus_pos) (queued_fresh s _ quantum capacity) n
  rw [length, size] at within
  have looser : (s.jobs.length - 1) / s.cpus * quantum ≤
      ((s.jobs.length - 1) / s.cpus + 1) * quantum - 1 := by
    rw [Nat.add_mul, Nat.one_mul]
    omega
  constructor
  case dispatched =>
    intro slot p found dispatched
    obtain ⟨r, response, in_time⟩ := within.dispatched slot p found dispatched
    exact ⟨r, response, Nat.le_trans in_time looser⟩
  case pending =>
    intro slot p found undispatched arrived
    exact Nat.le_trans (within.pending slot p found undispatched arrived) looser

/-- Of three processes on two processors the last one arrives while both are taken, and has its
first turn when their quanta end. -/
theorem round_robin_response_third :
    let start := boot sharedPid (.fresh .roundRobin 2 500)
    (∃ p, (start.steps 2).procs[2]? = some p ∧ start.dispatchesOf 2 2 = [] ∧
      p.arrival < (start.steps 2).now ∧ (start.steps 2).now - p.arrival ≤ 3) ∧
    ∃ p r, (start.steps 3).procs[2]? = some p ∧ start.dispatchesOf 3 2 ≠ [] ∧
      p.response = some r ∧ r ≤ 3 := by
  intro start
  have within := round_robin_response sharedPid (by decide) Nat.two_pos
    (show sharedPid.jobs.length ≤ 500 by decide)
  obtain ⟨p, found, undispatched, arrived⟩ : ∃ p, (start.steps 2).procs[2]? = some p ∧
      start.dispatchesOf 2 2 = [] ∧ p.arrival < (start.steps 2).now := by decide +kernel
  obtain ⟨q, found', dispatched⟩ : ∃ q, (start.steps 3).procs[2]? = some q ∧
      start.dispatchesOf 3 2 ≠ [] := by decide +kernel
  obtain ⟨r, response, in_time⟩ := (within 3).dispatched 2 q found' dispatched
  exact ⟨⟨p, found, undispatched, arrived, (within 2).pending 2 p found undispatched arrived⟩,
    q, r, found', dispatched, response, in_time⟩

end CpuScheduling.Machine
