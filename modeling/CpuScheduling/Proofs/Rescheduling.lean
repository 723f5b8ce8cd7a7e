import CpuScheduling.Proofs.Consistency
/-!
The phases that hand out processors, as sequences of moves: slots enter the queue, used-up quanta
expire, shorter processes preempt, idle processors are filled. What moves keep is therefore kept
from the arrivals of a tick to its row of the timeline.
-/
namespace CpuScheduling.Machine
variable {m m' : Machine}

theorem moves_foldl {α : Type} {f : Machine → α → Machine} (xs : List α) (h : Consistent m)
    (step : ∀ x, Consistent x → ∀ a ∈ xs, Moves x (f x a)) : Moves m (xs.foldl f m) := by
  induction xs generalizing m with
  | nil => exact .refl
  | cons a xs ih =>
    have first := step m h a List.mem_cons_self
    have rest := ih (h.moves first) fun x hx b member => step x hx b (List.mem_cons_of_mem a member)
    exact first.trans rest

/-! The queue. -/

theorem moves_enqueueAll (slots : List Nat) (nodup : slots.Nodup)
    (ready : ∀ slot ∈ slots, m.status? slot = some .ready)
    (unqueued : ∀ slot ∈ slots, slot ∉ m.queued) : Moves m (slots.foldl sendToQueue m) := by
  induction slots generalizing m with
  | nil => exact .refl
  | cons slot slots ih =>
    obtain ⟨absent, nodup⟩ := List.nodup_cons.1 nodup
    have first : Move m (m.sendToQueue slot) :=
      .enqueue (ready slot List.mem_cons_self) (unqueued slot List.mem_cons_self)
    refine .head first (ih nodup ?_ ?_)
    · intro s member
      rw [status?_sendToQueue]
      exact ready s (List.mem_cons_of_mem slot member)
    · intro s member queued
      have old := unqueued s (List.mem_cons_of_mem slot member)
      rcases queued_sendToQueue m slot with same | longer
      · exact old (same ▸ queued)
      · rw [longer] at queued
        rcases List.mem_append.1 queued with queued | new
        · exact old queued
        · exact absent (List.mem_singleton.1 new ▸ member)

theorem moves_endSliceAt (h : Consistent m) (quantum cpu : Nat) :
    Moves m (endSliceAt quantum cpu m) := by
  unfold endSliceAt
  cases occupied : m.occupant? cpu with
  | none => exact .refl
  | some entry =>
    obtain ⟨slot, p⟩ := entry
    obtain ⟨holds, found⟩ := occupant?_eq_some.1 occupied
    have running := h.running_of_held holds found
    dsimp only
    split
    · exact .refl
    · have off : Move m (m.vacate cpu slot p .ready .expired (.quantumExpired p.pid cpu)) :=
        .displace holds found running (.inl ⟨rfl, rfl⟩) _
      refine .tail (.single off) (.enqueue ?_ ?_)
      · rw [status?_vacate found, Function.update_self]
      · exact h.not_queued ((h.matching cpu slot).1 holds) nofun

theorem moves_endSlices (h : Consistent m) (quantum : Nat) : Moves m (m.endSlices quantum) :=
  moves_foldl _ h fun _ hx cpu _ => moves_endSliceAt hx quantum cpu

/-! Preemption. -/

theorem preemption?_eq_some {slot cpu : Nat} {p : ProcessRecord}
    (h : m.preemption? = some (slot, p, cpu)) :
    m.procs[slot]? = some p ∧ p.status = .ready ∧ p.arrival ≤ m.now ∧ cpu < m.cpus.size ∧
      (m.held cpu = none ∨ ∃ s victim, m.held cpu = some s ∧ m.procs[s]? = some victim ∧
        p.remaining < victim.remaining) := by
  unfold preemption? at h
  obtain ⟨s, challenger, h⟩ := Option.bind_eq_some_iff.1 h
  obtain ⟨q, found, h⟩ := Option.bind_eq_some_iff.1 h
  obtain ⟨c, place, h⟩ := Option.bind_eq_some_iff.1 h
  cases h
  obtain ⟨p', found', ready, arrived⟩ := Selection.challenger?_eq_some challenger
  cases found.symm.trans found'
  obtain ⟨processor, at_cpu, free⟩ := Selection.placeFor?_eq_some place
  rw [Array.getElem?_toList] at at_cpu
  have inside := (Array.getElem?_eq_some_iff.1 at_cpu).1
  refine ⟨found, ready, arrived, inside, ?_⟩
  rcases free with idle | ⟨p'', victim, found'', occupied, longer⟩
  · left
    exact (isIdleAt_iff.1 (by simp [isIdleAt, at_cpu, idle])).2
  · cases found.symm.trans found''
    obtain ⟨s, holds, at_slot⟩ := Option.bind_eq_some_iff.1 occupied
    exact .inr ⟨s, victim, by simp [held, at_cpu, holds], at_slot, longer⟩

theorem evict_of_held {cpu slot : Nat} {p : ProcessRecord} (victor : Int)
    (holds : m.held cpu = some slot) (found : m.procs[slot]? = some p) :
    m.evict cpu victor = m.vacate cpu slot p .waiting .preempted (.preempted p.pid cpu victor) := by
  rw [evict, occupant?_eq_some.2 ⟨holds, found⟩]

theorem evict_of_idle {cpu : Nat} (victor : Int) (free : m.held cpu = none) :
    m.evict cpu victor = m := by
  rw [evict, occupant?_eq_none free]

/-- After an eviction the processor is idle, and the challenger stands as before. -/
theorem moves_evict (h : Matching m.held m.status?) {slot cpu : Nat} {p : ProcessRecord}
    (preempts : m.preemption? = some (slot, p, cpu)) (victor : Int) :
    Moves m (m.evict cpu victor) ∧ (m.evict cpu victor).isIdleAt cpu = true ∧
      (m.evict cpu victor).procs[slot]? = some p ∧ (m.evict cpu victor).policy = m.policy := by
  obtain ⟨found, ready, arrived, inside, free | ⟨s, victim, holds, at_slot, longer⟩⟩ :=
    preemption?_eq_some preempts
  · rw [evict_of_idle victor free]
    exact ⟨.refl, isIdleAt_iff.2 ⟨inside, free⟩, found, rfl⟩
  · have running := h.running_of_held holds at_slot
    -- the challenger is ready, so it is not the one that is evicted
    have other : s ≠ slot := by
      rintro rfl
      cases found.symm.trans at_slot
      rw [ready] at running
      cases running
    rw [evict_of_held victor holds at_slot]
    refine ⟨.single (.displace holds at_slot running (.inr ⟨rfl, rfl⟩) _), ?_, ?_, rfl⟩
    · rw [isIdleAt_iff, held_vacate inside, size_cpus_vacate]
      exact ⟨inside, Function.update_self ..⟩
    · exact (List.getElem?_set_ne other).trans found

theorem moves_preempted (h : Consistent m) (no_queue : m.policy.queue? = none) {slot cpu : Nat}
    {p : ProcessRecord} (preempts : m.preemption? = some (slot, p, cpu)) :
    Moves m ((m.evict cpu p.pid).dispatch cpu slot) := by
  obtain ⟨evicted, idle, found, policy⟩ := moves_evict h.matching preempts p.pid
  obtain ⟨-, ready, arrived, -⟩ := preemption?_eq_some preempts
  refine evicted.tail (.place idle found (.inr ready) (evicted.now_eq ▸ arrived) ?_)
  rw [queued, policy, no_queue]
  exact List.not_mem_nil

theorem policy_preempted (h : Matching m.held m.status?) {slot cpu : Nat} {p : ProcessRecord}
    (preempts : m.preemption? = some (slot, p, cpu)) :
    ((m.evict cpu p.pid).dispatch cpu slot).policy = m.policy := by
  obtain ⟨-, -, -, policy⟩ := moves_evict h preempts p.pid
  rw [policy_dispatch, policy]

theorem preemptAtMost_of_none_left (none_left : m.preemption? = none) (n : Nat) :
    preemptAtMost n m = m := by
  cases n with
  | zero => rfl
  | succ n => rw [preemptAtMost, none_left]

theorem moves_preemptAtMost (h : Consistent m) (no_queue : m.policy.queue? = none) (n : Nat) :
    Moves m (preemptAtMost n m) := by
  induction n generalizing m with
  | zero => exact .refl
  | succ n ih =>
    unfold preemptAtMost
    cases preempts : m.preemption? with
    | none => exact .refl
    | some round =>
      obtain ⟨slot, p, cpu⟩ := round
      have preempted := moves_preempted h no_queue preempts
      refine preempted.trans (ih (h.moves preempted) ?_)
      rw [policy_preempted h.matching preempts, no_queue]

/-! Preemption goes on until none is possible. -/

/-- Each preemption takes one process from the ready ones; the one that is evicted waits. -/
theorem readyCount_preempted (h : Matching m.held m.status?) {slot cpu : Nat} {p : ProcessRecord}
    (preempts : m.preemption? = some (slot, p, cpu)) :
    ((m.evict cpu p.pid).dispatch cpu slot).readyCount + 1 = m.readyCount := by
  obtain ⟨-, -, found', -⟩ := moves_evict h preempts p.pid
  obtain ⟨found, ready, arrived, inside, place⟩ := preemption?_eq_some preempts
  have evicted : (m.evict cpu p.pid).readyCount = m.readyCount := by
    rcases place with free | ⟨s, victim, holds, at_slot, -⟩
    · rw [evict_of_idle _ free]
    · have running := h.running_of_held holds at_slot
      rw [evict_of_held _ holds at_slot]
      have counts := countP_set_add (fun q => decide (q.status = .ready) && q.arrivedBy m.now)
        at_slot { victim with status := .waiting }
      rw [readyCount, readyCount]
      simpa [running, vacate] using counts
  have counts := countP_set_add (fun q => decide (q.status = .ready) && q.arrivedBy m.now) found'
    (p.dispatch cpu (m.evict cpu p.pid).now)
  have now : (m.evict cpu p.pid).now = m.now := (moves_evict h preempts p.pid).1.now_eq
  rw [← evicted, readyCount, readyCount, dispatch_eq _ _ _ found']
  dsimp only
  rw [now]
  rw [now] at counts
  simpa [ready, ProcessRecord.arrivedBy, arrived, ProcessRecord.dispatch] using counts

theorem readyCount_pos {slot cpu : Nat} {p : ProcessRecord}
    (preempts : m.preemption? = some (slot, p, cpu)) : 0 < m.readyCount := by
  obtain ⟨found, ready, arrived, -⟩ := preemption?_eq_some preempts
  refine List.countP_pos_iff.2 ⟨p, List.mem_of_getElem? found, ?_⟩
  simp [ready, ProcessRecord.arrivedBy, arrived]

theorem matching_preempted (h : Matching m.held m.status?) {slot cpu : Nat} {p : ProcessRecord}
    (preempts : m.preemption? = some (slot, p, cpu)) :
    Matching ((m.evict cpu p.pid).dispatch cpu slot).held
      ((m.evict cpu p.pid).dispatch cpu slot).status? := by
  obtain ⟨-, idle, found, -⟩ := moves_evict h preempts p.pid
  obtain ⟨-, ready, -, -, place⟩ := preemption?_eq_some preempts
  have evicted : Matching (m.evict cpu p.pid).held (m.evict cpu p.pid).status? := by
    rcases place with free | ⟨s, victim, holds, at_slot, -⟩
    · rw [evict_of_idle _ free]
      exact h
    · have off : ∀ c, Status.waiting ≠ .running c := by simp
      rw [evict_of_held _ holds at_slot]
      exact h.vacate holds at_slot off _ _
  exact evicted.dispatch idle found fun c => by rw [ready]; exact nofun

theorem preemption?_preemptAtMost (h : Matching m.held m.status?) {n : Nat}
    (enough : m.readyCount ≤ n) : (preemptAtMost n m).preemption? = none := by
  -- every preemption takes a ready process and makes none, so the fuel outlasts them
  induction n generalizing m with
  | zero =>
    cases preempts : m.preemption? with
    | none => exact preempts
    | some round => exact absurd enough (Nat.not_le_of_lt (readyCount_pos preempts))
  | succ n ih =>
    unfold preemptAtMost
    cases preempts : m.preemption? with
    | none => exact preempts
    | some round =>
      obtain ⟨slot, p, cpu⟩ := round
      have fewer := readyCount_preempted h preempts
      exact ih (matching_preempted h preempts) (by omega)

theorem preemption?_preempt (h : Matching m.held m.status?) : m.preempt.preemption? = none :=
  preemption?_preemptAtMost h (Nat.le_refl _)

/-- When no preemption is possible and yet a process is ready, the first of the ready has no
place. -/
theorem unplaced_of_ready (none_left : m.preemption? = none) {p : ProcessRecord}
    (member : p ∈ m.procs) (arrived : p.arrival ≤ m.now) (ready : p.status = .ready) :
    ∃ slot q, Selection.challenger? m.procs m.now = some slot ∧ m.procs[slot]? = some q ∧
      Selection.placeFor? m.cpus.toList m.procs slot = none := by
  cases challenger : Selection.challenger? m.procs m.now with
  | none =>
    exact absurd arrived
      (Nat.not_le_of_lt (Selection.challenger?_eq_none_iff.1 challenger p member ready))
  | some slot =>
    obtain ⟨q, found, -⟩ := Selection.challenger?_eq_some challenger
    refine ⟨slot, q, rfl, found, ?_⟩
    rw [preemption?, challenger] at none_left
    exact Option.eq_none_iff_forall_ne_some.2 (by simpa [found] using none_left)

/-- When no preemption is possible and a processor is idle, no process is ready. -/
theorem not_ready_of_idle (none_left : m.preemption? = none) {cpu : Nat}
    (idle : m.isIdleAt cpu = true) {p : ProcessRecord} (member : p ∈ m.procs)
    (arrived : p.arrival ≤ m.now) : p.status ≠ .ready := by
  intro ready
  obtain ⟨slot, q, -, -, unplaced⟩ := unplaced_of_ready none_left member arrived ready
  obtain ⟨c, at_cpu, blank⟩ := (Option.any_eq_true _ _).1 idle
  exact Selection.placeFor?_ne_none (Array.mem_toList_iff.2 (Array.mem_of_getElem? at_cpu)) blank
    unplaced

/-! Filling idle processors. -/

theorem moves_choose (m : Machine) : Moves m m.choose.2 := by
  rcases m.choose_cases with ⟨quantum, queue, policy, choice⟩ | ⟨-, key, choice⟩ <;> rw [choice]
  exact .single (.dequeue policy)

/-- What the policy chooses is pending, has arrived, and is not queued any more. -/
theorem pending_of_choose (h : Consistent m) {slot : Nat} (chosen : m.choose.1 = some slot) :
    ∃ p, m.procs[slot]? = some p ∧ (p.status = .waiting ∨ p.status = .ready) ∧
      p.arrival ≤ m.now ∧ slot ∉ m.choose.2.queued := by
  rcases m.choose_cases with ⟨quantum, queue, policy, choice⟩ | ⟨no_queue, key, choice⟩
  · rw [choice] at chosen ⊢
    have queued_eq : m.queued = queue.slots := by rw [queued, policy]; rfl
    have shape : m.queued = slot :: queue.dequeue.2.slots := by
      rw [queued_eq, queue.slots_dequeue, List.cons_head?_tail chosen]
    have front : slot ∈ m.queued := shape ▸ List.mem_cons_self
    obtain ⟨p, found, ready⟩ := status?_eq_some.1 (h.queued_ready slot front)
    refine ⟨p, found, .inr ready, h.arrived_of_ready found ready, ?_⟩
    exact (List.nodup_cons.1 (shape ▸ h.queued_nodup)).1
  · rw [choice] at chosen ⊢
    obtain ⟨p, found, waiting, arrived⟩ := Selection.bestWaiting?_eq_some chosen
    refine ⟨p, found, .inl waiting, arrived, ?_⟩
    rw [queued, no_queue]
    exact List.not_mem_nil

theorem moves_assign (h : Consistent m) {cpu slot : Nat} (idle : m.isIdleAt cpu = true)
    (chosen : m.choose.1 = some slot) : Moves m (m.choose.2.dispatch cpu slot) := by
  obtain ⟨p, found, pending, arrived, unqueued⟩ := pending_of_choose h chosen
  exact (moves_choose m).tail (.place idle found pending arrived unqueued)

section Cons
variable {cpu : Nat} (rest : List Nat)

theorem occupyThese_cons_of_busy (working : m.isIdleAt cpu = false) :
    m.occupyThese (cpu :: rest) = m.occupyThese rest := by
  simp [occupyThese, working]

theorem occupyThese_cons_of_no_choice (idle : m.isIdleAt cpu = true)
    (no_choice : m.choose.1 = none) : m.occupyThese (cpu :: rest) = m.choose.2 := by
  rw [occupyThese, if_pos idle]
  split
  next chosen choice => rw [choice]
  next slot chosen choice => simp [choice] at no_choice

theorem occupyThese_cons_of_choice {slot : Nat} (idle : m.isIdleAt cpu = true)
    (chosen : m.choose.1 = some slot) :
    m.occupyThese (cpu :: rest) = (m.choose.2.dispatch cpu slot).occupyThese rest := by
  rw [occupyThese, if_pos idle]
  split
  next choice => simp [choice] at chosen
  next s after choice =>
    simp only [choice, Option.some.injEq] at chosen
    rw [chosen, choice]

end Cons

/-- How the idle ones among some processors are filled, one by one: a busy processor is passed
over, an idle one gets the next choice, and the first idle one without a choice ends it. -/
theorem occupyThese_induction {P : List Nat → Machine → Machine → Prop}
    (nil : ∀ m, P [] m m)
    (busy : ∀ cpu rest m, m.isIdleAt cpu = false → P rest m (m.occupyThese rest) →
      P (cpu :: rest) m (m.occupyThese rest))
    (exhausted : ∀ cpu rest m, m.isIdleAt cpu = true → m.choose.1 = none →
      P (cpu :: rest) m m.choose.2)
    (served : ∀ cpu rest m slot, m.isIdleAt cpu = true → m.choose.1 = some slot →
      P rest (m.choose.2.dispatch cpu slot) ((m.choose.2.dispatch cpu slot).occupyThese rest) →
      P (cpu :: rest) m ((m.choose.2.dispatch cpu slot).occupyThese rest))
    (cpus : List Nat) (m : Machine) : P cpus m (m.occupyThese cpus) := by
  induction cpus generalizing m with
  | nil => exact nil m
  | cons cpu rest ih =>
    cases idle : m.isIdleAt cpu with
    | false =>
      rw [occupyThese_cons_of_busy rest idle]
      exact busy cpu rest m idle (ih m)
    | true =>
      cases chosen : m.choose.1 with
      | none =>
        rw [occupyThese_cons_of_no_choice rest idle chosen]
        exact exhausted cpu rest m idle chosen
      | some slot =>
        rw [occupyThese_cons_of_choice rest idle chosen]
        exact served cpu rest m slot idle chosen (ih _)

theorem moves_occupyThese (h : Consistent m) (cpus : List Nat) : Moves m (m.occupyThese cpus) := by
  refine occupyThese_induction (P := fun _ x y => Consistent x → Moves x y) ?_ ?_ ?_ ?_ cpus m h
  · exact fun _ _ => .refl
  · exact fun _ _ _ _ ih hx => ih hx
  · exact fun _ _ x _ _ _ => moves_choose x
  · intro cpu rest x slot idle chosen ih hx
    have assigned := moves_assign hx idle chosen
    exact assigned.trans (ih (hx.moves assigned))

theorem moves_occupyIdle (h : Consistent m) : Moves m m.occupyIdle := moves_occupyThese h _

end CpuScheduling.Machine
