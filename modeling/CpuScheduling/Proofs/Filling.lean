import CpuScheduling.Proofs.Runs
/-!
Filling idle processors. Those that got a process, in order of processors, show what the policy
chose in which order; every other processor and process is as before; and a processor is left idle
only when the policy has nothing more to choose.
-/
namespace CpuScheduling

/-- The events of one kind. -/
def Trace.ofKind (kind : Event.Kind) (trace : Trace) : List Event :=
  trace.toList.filter fun e => decide (e.kind = kind)

theorem Trace.ofKind_push (kind : Event.Kind) (trace : Trace) (e : Event) :
    Trace.ofKind kind (trace.push e) =
      trace.ofKind kind ++ if e.kind = kind then [e] else [] := by
  rw [ofKind, Array.toList_push, List.filter_append, ofKind]
  congr 1
  by_cases same : e.kind = kind <;> simp [same]

/-- The identifiers of the dispatches in a trace, in their order. -/
def Trace.dispatchedPids (trace : Trace) : List Int :=
  trace.toList.filterMap fun e => if e.kind = .dispatched then some e.pid else none

theorem Trace.dispatchedPids_push (trace : Trace) (e : Event) :
    Trace.dispatchedPids (trace.push e) =
      trace.dispatchedPids ++ if e.kind = .dispatched then [e.pid] else [] := by
  unfold dispatchedPids
  rw [Array.toList_push, List.filterMap_append]
  congr 1
  by_cases kind : e.kind = .dispatched <;> simp [kind]

namespace Machine
variable {m : Machine}

theorem occupyThese_of_busy (cpus : List Nat) (busy : ∀ cpu, m.isIdleAt cpu = false) :
    m.occupyThese cpus = m := by
  induction cpus with
  | nil => rfl
  | cons cpu cpus ih =>
    unfold occupyThese
    rw [busy cpu]
    exact ih

/-- The processors among some that are idle before and hold a slot after, with those slots. -/
def filled (cpus : List Nat) (before after : Machine) : List (Nat × Nat) :=
  cpus.filterMap fun cpu =>
    if before.isIdleAt cpu then (after.held cpu).map fun slot => (cpu, slot) else none

theorem mem_filled {cpus : List Nat} {before after : Machine} {cpu slot : Nat} :
    (cpu, slot) ∈ filled cpus before after ↔
      cpu ∈ cpus ∧ before.isIdleAt cpu = true ∧ after.held cpu = some slot := by
  rw [filled, List.mem_filterMap]
  constructor
  · rintro ⟨c, inside, fills⟩
    obtain ⟨idle, fills⟩ := Option.ite_none_right_eq_some.1 fills
    obtain ⟨s, holds, same⟩ := Option.map_eq_some_iff.1 fills
    cases same
    exact ⟨inside, idle, holds⟩
  · rintro ⟨inside, idle, holds⟩
    exact ⟨cpu, inside, by rw [if_pos idle, holds, Option.map_some]⟩

/-- Each processor is filled once. -/
theorem pairwise_filled {cpus : List Nat} (nodup : cpus.Nodup) (before after : Machine) :
    (filled cpus before after).Pairwise fun a b => a.1 ≠ b.1 := by
  refine List.Pairwise.filterMap _ (fun c c' other a at_c b at_c' => ?_) nodup
  obtain ⟨-, at_c⟩ := Option.ite_none_right_eq_some.1 at_c
  obtain ⟨-, at_c'⟩ := Option.ite_none_right_eq_some.1 at_c'
  obtain ⟨s, -, rfl⟩ := Option.map_eq_some_iff.1 at_c
  obtain ⟨s', -, rfl⟩ := Option.map_eq_some_iff.1 at_c'
  exact other

theorem isIdleAt_eq_of_held_eq {x y : Machine} {cpu : Nat} (size : y.cpus.size = x.cpus.size)
    (same : y.held cpu = x.held cpu) : y.isIdleAt cpu = x.isIdleAt cpu := by
  apply Bool.eq_iff_iff.2
  rw [isIdleAt_iff, isIdleAt_iff, size, same]

/-- Who is idle after a dispatch was idle before, and did not get the process. -/
theorem idle_of_dispatch {cpu slot c : Nat} {p : ProcessRecord} (found : m.procs[slot]? = some p)
    (idle : m.isIdleAt cpu = true) (idle' : (m.dispatch cpu slot).isIdleAt c = true) :
    c ≠ cpu ∧ m.isIdleAt c = true := by
  have other : c ≠ cpu := by
    rintro rfl
    have vacant := (isIdleAt_iff.1 idle').2
    rw [held_dispatch found (isIdleAt_iff.1 idle).1, Function.update_self] at vacant
    cases vacant
  refine ⟨other, ?_⟩
  rwa [isIdleAt_eq_of_held_eq (size_cpus_dispatch ..) (held_dispatch_of_ne m cpu slot other)]
    at idle'

theorem held_choose (m : Machine) : m.choose.2.held = m.held := rfl

/-- A processor that is not among those to be filled, or is busy, keeps what it holds. -/
theorem held_occupyThese (cpus : List Nat) (m : Machine) {c : Nat}
    (apart : c ∉ cpus ∨ m.isIdleAt c = false) : (m.occupyThese cpus).held c = m.held c := by
  refine occupyThese_induction
    (P := fun cs x y => c ∉ cs ∨ x.isIdleAt c = false → y.held c = x.held c) ?_ ?_ ?_ ?_ cpus m apart
  · exact fun _ _ => rfl
  · intro cpu rest x _ ih apart
    exact ih (apart.imp_left fun absent member => absent (List.mem_cons_of_mem cpu member))
  · exact fun _ _ _ _ _ _ => rfl
  · intro cpu rest x slot idle _ ih apart
    have other : c ≠ cpu := by
      rintro rfl
      rcases apart with absent | working
      · exact absent List.mem_cons_self
      · rw [idle] at working
        cases working
    have same : (x.choose.2.dispatch cpu slot).held c = x.held c :=
      held_dispatch_of_ne x.choose.2 cpu slot other
    rw [ih, same]
    refine apart.imp (fun absent member => absent (List.mem_cons_of_mem cpu member)) ?_
    intro working
    rw [isIdleAt_eq_of_held_eq (size_cpus_dispatch ..) same]
    exact working

theorem filled_cons_of_busy {cpu : Nat} (working : m.isIdleAt cpu = false) (rest : List Nat)
    (after : Machine) : filled (cpu :: rest) m after = filled rest m after := by
  rw [filled, List.filterMap_cons_none]
  · rfl
  · rw [working]
    rfl

theorem filled_choose (cpus : List Nat) (m : Machine) : filled cpus m m.choose.2 = [] := by
  refine List.filterMap_eq_nil_iff.2 fun cpu _ => ?_
  split
  next idle =>
    rw [held_choose, (isIdleAt_iff.1 idle).2]
    rfl
  next => rfl

theorem filled_cons_of_served (h : Consistent m) {cpu slot : Nat} {rest : List Nat}
    (idle : m.isIdleAt cpu = true) (chosen : m.choose.1 = some slot) (absent : cpu ∉ rest) :
    let next := m.choose.2.dispatch cpu slot
    filled (cpu :: rest) m (next.occupyThese rest) =
      (cpu, slot) :: filled rest next (next.occupyThese rest) := by
  intro next
  obtain ⟨p, found, -⟩ := pending_of_choose h chosen
  have found' : m.choose.2.procs[slot]? = some p := found
  -- later fillings leave this processor alone
  have holds : (next.occupyThese rest).held cpu = some slot := by
    rw [held_occupyThese rest next (.inl absent), held_dispatch found' (isIdleAt_iff.1 idle).1,
      Function.update_self]
  rw [filled, List.filterMap_cons, if_pos idle, holds, Option.map_some, filled]
  refine congrArg ((cpu, slot) :: ·) ?_
  refine List.filterMap_congr fun c member => ?_
  have other : c ≠ cpu := by
    rintro rfl
    exact absent member
  have same : next.isIdleAt c = m.isIdleAt c :=
    isIdleAt_eq_of_held_eq (size_cpus_dispatch ..) (held_dispatch_of_ne m.choose.2 cpu slot other)
  rw [same]

/-- What a filling does, by the processors that it fills. -/
theorem filling_induction {P : List (Nat × Nat) → Machine → Machine → Prop}
    (nil : ∀ x, P [] x x)
    (exhausted : ∀ x, x.choose.1 = none → P [] x x.choose.2)
    (served : ∀ x y cpu slot fills, Consistent x → x.choose.1 = some slot →
      Moves x (x.choose.2.dispatch cpu slot) → P fills (x.choose.2.dispatch cpu slot) y →
      P ((cpu, slot) :: fills) x y)
    (h : Consistent m) {cpus : List Nat} (nodup : cpus.Nodup) :
    P (filled cpus m (m.occupyThese cpus)) m (m.occupyThese cpus) := by
  refine occupyThese_induction
    (P := fun cs x y => Consistent x → cs.Nodup → P (filled cs x y) x y) ?_ ?_ ?_ ?_ cpus m h nodup
  · exact fun x _ _ => nil x
  · intro cpu rest x working ih hx nodup
    rw [filled_cons_of_busy working]
    exact ih hx (List.nodup_cons.1 nodup).2
  · intro cpu rest x _ no_choice _ _
    rw [filled_choose]
    exact exhausted x no_choice
  · intro cpu rest x slot idle chosen ih hx nodup
    obtain ⟨absent, nodup⟩ := List.nodup_cons.1 nodup
    have assigned := moves_assign hx idle chosen
    rw [filled_cons_of_served hx idle chosen absent]
    exact served x _ cpu slot _ hx chosen assigned (ih (hx.moves assigned) nodup)

theorem status?_occupyThese (h : Consistent m) {cpus : List Nat} (nodup : cpus.Nodup) {s : Nat} :
    s ∉ (filled cpus m (m.occupyThese cpus)).map (·.2) →
    (m.occupyThese cpus).status? s = m.status? s := by
  refine filling_induction
    (P := fun fills x y => s ∉ fills.map (·.2) → y.status? s = x.status? s) ?_ ?_ ?_ h nodup
  · exact fun _ _ => rfl
  · exact fun _ _ _ => rfl
  · intro x y cpu slot fills hx chosen _ ih unserved
    rw [List.map_cons, List.mem_cons, not_or] at unserved
    obtain ⟨p, found, -⟩ := pending_of_choose hx chosen
    have found' : x.choose.2.procs[slot]? = some p := found
    rw [ih unserved.2, status?_dispatch found', Function.update_of_ne unserved.1]
    rfl

/-- The slots that leave the queue are those that got a processor, front first. -/
theorem queued_occupyThese (h : Consistent m) {cpus : List Nat} (nodup : cpus.Nodup) :
    m.policy.algorithm = .roundRobin →
    (filled cpus m (m.occupyThese cpus)).map (·.2) ++ (m.occupyThese cpus).queued = m.queued := by
  refine filling_induction (P := fun fills x y => x.policy.algorithm = .roundRobin →
    fills.map (·.2) ++ y.queued = x.queued) ?_ ?_ ?_ h nodup
  · exact fun _ _ => rfl
  · intro x no_choice turns
    obtain ⟨shape, -⟩ := queued_choose turns
    rw [shape, no_choice]
    rfl
  · intro x y cpu slot fills _ chosen _ ih turns
    obtain ⟨shape, turns'⟩ := queued_choose turns
    rw [List.map_cons, List.cons_append, ih (by rw [policy_dispatch]; exact turns'),
      queued_dispatch, shape, chosen]
    rfl

/-- Every dispatch is recorded, in the order in which processors were filled. -/
theorem dispatchedPids_occupyThese (h : Consistent m) {cpus : List Nat} (nodup : cpus.Nodup) :
    (m.occupyThese cpus).trace.dispatchedPids.map some = m.trace.dispatchedPids.map some ++
      (filled cpus m (m.occupyThese cpus)).map fun e => m.jobs[e.2]?.map (·.pid) := by
  refine filling_induction (P := fun fills x y => y.trace.dispatchedPids.map some =
    x.trace.dispatchedPids.map some ++ fills.map fun e => x.jobs[e.2]?.map (·.pid)) ?_ ?_ ?_ h nodup
  · exact fun x => (List.append_nil _).symm
  · exact fun x _ => (List.append_nil _).symm
  · intro x y cpu slot fills hx chosen assigned ih
    obtain ⟨p, found, -⟩ := pending_of_choose hx chosen
    have found' : x.choose.2.procs[slot]? = some p := found
    have pid := pid_of_getElem? found
    have recorded : (x.choose.2.dispatch cpu slot).trace =
        x.trace.push ⟨x.now, cpu, .dispatched, p.pid⟩ := by
      rw [dispatch_eq _ cpu slot found']
      rfl
    rw [List.map_cons, ih, jobs_eq_of_accounts_eq assigned.accounts_eq, recorded,
      Trace.dispatchedPids_push, if_pos rfl, List.map_append, pid, List.append_assoc]
    rfl

/-- The dispatches of some processors to some slots. -/
def dispatches (m : Machine) (fills : List (Nat × Nat)) : List Event :=
  fills.filterMap fun e => m.jobs[e.2]?.map fun job => ⟨m.now, e.1, .dispatched, job.pid⟩

theorem mem_dispatches {fills : List (Nat × Nat)} {e : Event} :
    e ∈ m.dispatches fills ↔ ∃ cpu slot job, (cpu, slot) ∈ fills ∧ m.jobs[slot]? = some job ∧
      e = ⟨m.now, cpu, .dispatched, job.pid⟩ := by
  simp only [dispatches, List.mem_filterMap, Prod.exists, Option.map_eq_some_iff]
  constructor
  · rintro ⟨cpu, slot, member, job, found, rfl⟩
    exact ⟨cpu, slot, job, member, found, rfl⟩
  · rintro ⟨cpu, slot, job, member, found, rfl⟩
    exact ⟨cpu, slot, member, job, found, rfl⟩

/-- A filling adds one dispatch for each processor that it fills, and no other event. -/
theorem trace_occupyThese (h : Consistent m) {cpus : List Nat} (nodup : cpus.Nodup) :
    (m.occupyThese cpus).trace.toList =
      m.trace.toList ++ m.dispatches (filled cpus m (m.occupyThese cpus)) := by
  refine filling_induction (P := fun fills x y =>
    y.trace.toList = x.trace.toList ++ x.dispatches fills) ?_ ?_ ?_ h nodup
  · exact fun x => (List.append_nil _).symm
  · exact fun x _ => (List.append_nil _).symm
  · intro x y cpu slot fills hx chosen assigned ih
    obtain ⟨p, found, -⟩ := pending_of_choose hx chosen
    have found' : x.choose.2.procs[slot]? = some p := found
    have job := job_of_getElem? found
    have recorded : (x.choose.2.dispatch cpu slot).trace =
        x.trace.push ⟨x.now, cpu, .dispatched, p.pid⟩ := by
      rw [dispatch_eq _ cpu slot found']
      rfl
    rw [ih, dispatches, dispatches, jobs_eq_of_accounts_eq assigned.accounts_eq, assigned.now_eq,
      recorded, Array.toList_push, List.filterMap_cons_some (by rw [job]; rfl), List.append_assoc]
    rfl

/-- After the row of a tick nothing is dispatched any more. -/
theorem dispatchedPids_step (m : Machine) :
    m.step.trace.dispatchedPids = m.occupied.trace.dispatchedPids := by
  refine atEachCpu_keeps (f := fun x => x.trace.dispatchedPids) fun cpu x => ?_
  unfold workAt
  split
  · rfl
  · dsimp only
    split
    · rw [retire, Trace.dispatchedPids_push, if_neg (by simp), List.append_nil]
    · rfl

theorem dropped_occupyThese (cpus : List Nat) (m : Machine) :
    (m.occupyThese cpus).dropped = m.dropped :=
  occupyThese_induction (P := fun _ x y => y.dropped = x.dropped) (fun _ => rfl)
    (fun _ _ _ _ ih => ih) (fun _ _ _ _ _ => rfl)
    (fun _ _ x _ _ _ ih => ih.trans (dropped_dispatch x.choose.2 ..)) cpus m

theorem size_cpus_occupyThese (cpus : List Nat) (m : Machine) :
    (m.occupyThese cpus).cpus.size = m.cpus.size :=
  occupyThese_induction (P := fun _ x y => y.cpus.size = x.cpus.size) (fun _ => rfl)
    (fun _ _ _ _ ih => ih) (fun _ _ _ _ _ => rfl)
    (fun _ _ x _ _ _ ih => ih.trans (size_cpus_dispatch x.choose.2 ..)) cpus m

/-- A processor is left idle only when the policy has nothing more to choose. -/
theorem choose_occupyThese (known : ∀ slot ∈ m.queued, slot < m.procs.length) (cpus : List Nat)
    {c : Nat} (member : c ∈ cpus) (idle : (m.occupyThese cpus).isIdleAt c = true) :
    (m.occupyThese cpus).choose.1 = none := by
  refine occupyThese_induction (P := fun cs x y => (∀ slot ∈ x.queued, slot < x.procs.length) →
    c ∈ cs → y.isIdleAt c = true → y.choose.1 = none) ?_ ?_ ?_ ?_ cpus m known member idle
  · exact fun _ _ member => absurd member List.not_mem_nil
  · intro cpu rest x working ih known member idle
    rcases List.mem_cons.1 member with rfl | member
    · rw [isIdleAt_eq_of_held_eq (size_cpus_occupyThese rest x)
        (held_occupyThese rest x (.inr working)), working] at idle
      cases idle
    · exact ih known member idle
  · exact fun _ _ x _ no_choice _ _ _ => choose_choose no_choice
  · intro cpu rest x slot free chosen ih known member idle
    obtain ⟨p, found⟩ := found_of_choose known chosen
    have known' : ∀ s ∈ (x.choose.2.dispatch cpu slot).queued,
        s < (x.choose.2.dispatch cpu slot).procs.length := by
      intro s queued
      rw [queued_dispatch] at queued
      rw [length_procs_dispatch]
      exact known s (mem_queued_of_choose queued)
    rcases List.mem_cons.1 member with rfl | member
    · by_cases again : c ∈ rest
      · exact ih known' again idle
      · have holds := (isIdleAt_iff.1 idle).2
        rw [held_occupyThese rest _ (.inl again), held_dispatch found (isIdleAt_iff.1 free).1,
          Function.update_self] at holds
        cases holds
    · exact ih known' member idle

/-! The filling of a tick. -/

/-- The slots that get a processor when idle processors are filled, in the order of those. -/
def served (m : Machine) : List Nat :=
  (filled (List.range m.rescheduled.cpus.size) m.rescheduled m.occupied).map (·.2)

theorem AtRest.running_of_served (h : AtRest m) {slot : Nat} (member : slot ∈ m.served) :
    ∃ cpu, m.occupied.status? slot = some (.running cpu) := by
  obtain ⟨⟨cpu, s⟩, in_filled, rfl⟩ := List.mem_map.1 member
  obtain ⟨-, -, holds⟩ := mem_filled.1 in_filled
  exact ⟨cpu, (h.consistent_occupied.matching cpu s).1 holds⟩

theorem AtRest.status?_of_unserved (h : AtRest m) {slot : Nat} (unserved : slot ∉ m.served) :
    m.occupied.status? slot = m.rescheduled.status? slot :=
  status?_occupyThese h.consistent_rescheduled List.nodup_range unserved

theorem AtRest.status?_rescheduled (h : AtRest m) {slot : Nat} {status : Status}
    (stands : m.occupied.status? slot = some status) (off : ∀ cpu, status ≠ .running cpu) :
    m.rescheduled.status? slot = some status := by
  rw [← h.status?_of_unserved, stands]
  intro member
  obtain ⟨cpu, runs⟩ := h.running_of_served member
  exact off cpu (Option.some.inj (stands.symm.trans runs))

theorem AtRest.size_cpus_occupied (h : AtRest m) : m.occupied.cpus.size = m.cpus.size :=
  h.moves_occupied.size_cpus_eq

theorem AtRest.idle_occupied (h : AtRest m) {cpu : Nat} (idle : m.occupied.isIdleAt cpu = true) :
    m.rescheduled.isIdleAt cpu = true ∧ m.occupied.choose.1 = none := by
  have filling := moves_occupyIdle h.consistent_rescheduled
  have size : m.occupied.cpus.size = m.rescheduled.cpus.size := filling.size_cpus_eq
  constructor
  · by_contra working
    have same := isIdleAt_eq_of_held_eq size
      (held_occupyThese _ m.rescheduled (.inr (Bool.eq_false_iff.2 working)))
    exact working (same.symm.trans idle)
  · have inside : cpu < m.rescheduled.cpus.size := size ▸ (isIdleAt_iff.1 idle).1
    exact choose_occupyThese h.consistent_rescheduled.queued_lt _ (List.mem_range.2 inside) idle

end Machine
end CpuScheduling
