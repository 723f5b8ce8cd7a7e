import Mathlib.Data.List.Sort
import CpuScheduling.Proofs.Comparison
import CpuScheduling.Proofs.Retelling
/-!
Machines that a retelling relates. Every phase of a tick keeps two machines related, and so does a
whole run, if no two processes that the algorithm may have to tell apart by their slots change
places.
-/
namespace CpuScheduling

/-- A timeline and what it is when it is told anew. With the clock ahead it is a longer one, which
may have grown more. -/
structure Timeline.Retold (r : Retelling) (t t' : Timeline) : Prop where
  width : t'.width = t.width
  rows : t'.rows = r.rows t.width t.rows
  capacity : r.delay = 0 → t'.capacity = t.capacity

theorem Timeline.Retold.write {r : Retelling} {t t' : Timeline} (told : Retold r t t') (tick : Nat)
    (cells : List Cell) :
    Retold r (t.write tick cells) (t'.write (tick + r.delay) (r.row cells)) where
  width := told.width
  rows := by
    rw [Timeline.rows_write, Timeline.rows_write, told.width, told.rows]
    exact (r.rows_writeRows ..).symm
  capacity together := by
    simp only [Timeline.write, Timeline.grow, told.capacity together, together, Nat.add_zero]

namespace Machine
variable {r : Retelling} {x y : Machine}

/-- A machine and what it is when its run is told anew. What the log says is left out. -/
structure Retold (r : Retelling) (x y : Machine) : Prop where
  length : y.procs.length = x.procs.length
  procs : ∀ slot, y.procs[r.place slot]? = x.procs[slot]?.map r.record
  cpus : y.cpus = x.cpus.map r.cpu
  policy : y.policy = r.policy x.policy
  timeline : x.timeline.Retold r y.timeline
  trace : y.trace = x.trace.map r.event
  now : y.now = x.now + r.delay
  completed : y.completed = x.completed
  dropped : y.dropped = x.dropped

theorem algorithm_choose (m : Machine) : m.choose.2.policy.algorithm = m.policy.algorithm := by
  cases policy : m.policy <;> simp only [choose, policy, Policy.next, Policy.algorithm]

/-! What the moves of a tick leave of the jobs. -/

@[simp] theorem jobs_dispatch (m : Machine) (cpu slot : Nat) :
    (m.dispatch cpu slot).jobs = m.jobs := by
  cases found : m.procs[slot]? with
  | none => rw [dispatch, found]
  | some p =>
    rw [dispatch_eq m cpu slot found]
    exact map_set_of_eq found rfl

theorem jobs_evict (m : Machine) (cpu : Nat) (victor : Int) :
    (m.evict cpu victor).jobs = m.jobs := by
  cases occupied : m.occupant? cpu with
  | none => simp only [evict, occupied]
  | some e =>
    simp only [evict, occupied]
    exact map_set_of_eq (occupant?_eq_some.1 occupied).2 rfl

theorem preemptAtMost_add (n more : Nat) (m : Machine) :
    preemptAtMost (n + more) m = preemptAtMost more (preemptAtMost n m) := by
  induction n generalizing m with
  | zero => rw [Nat.zero_add, preemptAtMost]
  | succ n ih =>
    rw [Nat.succ_add, preemptAtMost, preemptAtMost]
    split
    next none_left => exact (preemptAtMost_of_none_left none_left more).symm
    next => exact ih _

/-- Fuel beyond the ready processes is left over. -/
theorem preempt_eq_preemptAtMost {m : Machine} (h : Matching m.held m.status?) {n : Nat}
    (enough : m.readyCount ≤ n) :
    m.preempt = preemptAtMost n m := by
  obtain ⟨more, rfl⟩ := Nat.exists_eq_add_of_le enough
  rw [preemptAtMost_add]
  exact (preemptAtMost_of_none_left (preemption?_preempt h) more).symm

namespace Retold
variable (same : Retold r x y)
include same

theorem allFinished_eq : y.allFinished = x.allFinished := by
  simp [allFinished, same.length, same.completed]

theorem size_cpus : y.cpus.size = x.cpus.size := by
  simp [same.cpus]

theorem held_eq (cpu : Nat) : y.held cpu = (x.held cpu).map r.place := by
  simp [held, same.cpus, Retelling.cpu, Option.map_bind, Option.bind_map, Function.comp_def]

theorem isIdleAt_eq (cpu : Nat) : y.isIdleAt cpu = x.isIdleAt cpu := by
  cases found : x.cpus[cpu]? <;> simp [isIdleAt, same.cpus, found]

theorem occupant?_eq (cpu : Nat) :
    y.occupant? cpu = (x.occupant? cpu).map fun e => (r.place e.1, r.record e.2) := by
  have held := same.held_eq cpu
  simp only [Machine.held] at held
  simp only [occupant?, held]
  cases x.cpus[cpu]?.bind (·.current) with
  | none => rfl
  | some slot => simp [same.procs, Function.comp_def]

theorem occupant?_of_none {cpu : Nat} (vacant : x.occupant? cpu = none) :
    y.occupant? cpu = none := by
  rw [same.occupant?_eq, vacant, Option.map_none]

theorem occupant?_of_some {cpu slot : Nat} {p : ProcessRecord}
    (occupied : x.occupant? cpu = some (slot, p)) :
    y.occupant? cpu = some (r.place slot, r.record p) := by
  rw [same.occupant?_eq, occupied, Option.map_some]

theorem getElem?_of_none {slot : Nat} (absent : x.procs[slot]? = none) :
    y.procs[r.place slot]? = none := by
  rw [same.procs, absent, Option.map_none]

theorem getElem?_of_some {slot : Nat} {p : ProcessRecord} (found : x.procs[slot]? = some p) :
    y.procs[r.place slot]? = some (r.record p) := by
  rw [same.procs, found, Option.map_some]

theorem policy_of_eq {policy : Policy} (known : x.policy = policy) :
    y.policy = r.policy policy := by
  rw [same.policy, known]

theorem occupant?_procs (c : Cpu) :
    Selection.occupant? y.procs (r.cpu c) = (Selection.occupant? x.procs c).map r.record := by
  cases current : c.current <;> simp [Selection.occupant?, Retelling.cpu, current, same.procs]

theorem occupancy_eq : y.occupancy = r.row x.occupancy := by
  simp only [occupancy, Retelling.row, same.cpus, Array.toList_map, List.map_map]
  exact List.map_congr_left fun c _ => by simp [same.occupant?_procs, Function.comp_def]

/-! The moves. -/

/-- A record and its retelling are put in place of those before them. -/
theorem getElem?_set {slot : Nat} {p : ProcessRecord} (found : x.procs[slot]? = some p)
    (q : ProcessRecord) (i : Nat) : (y.procs.set (r.place slot) (r.record q))[r.place i]? =
      (x.procs.set slot q)[i]?.map r.record := by
  have inside := (List.getElem?_eq_some_iff.1 found).1
  have inside' := (List.getElem?_eq_some_iff.1 (same.getElem?_of_some found)).1
  by_cases here : slot = i
  · subst here
    simp [inside, inside']
  · have there : r.place slot ≠ r.place i := r.place.injective.ne here
    rw [List.getElem?_set_ne there, List.getElem?_set_ne here, same.procs]

theorem dispatch (cpu slot : Nat) :
    Retold r (x.dispatch cpu slot) (y.dispatch cpu (r.place slot)) := by
  cases found : x.procs[slot]? with
  | none =>
    simp only [Machine.dispatch, found, same.getElem?_of_none found]
    exact same
  | some p =>
    rw [dispatch_eq x cpu slot found, dispatch_eq y cpu _ (same.getElem?_of_some found)]
    refine { same with length := ?_, procs := ?_, cpus := ?_, trace := ?_ }
    · simpa using same.length
    · simp only [same.now, ← r.record_dispatch]
      exact same.getElem?_set found _
    · simp only [same.cpus]
      exact r.map_cpu_modify (fun c => (r.cpu_assign c slot).symm) _ _
    · simp [same.trace, same.now, Retelling.event]

theorem vacate {slot : Nat} {p : ProcessRecord} (found : x.procs[slot]? = some p) (cpu : Nat)
    (status : Status) (kind : Event.Kind) (notice notice' : Log.Notice) :
    Retold r (x.vacate cpu slot p status kind notice)
      (y.vacate cpu (r.place slot) (r.record p) status kind notice') := by
  refine { same with length := ?_, procs := ?_, cpus := ?_, trace := ?_ }
  · simpa [Machine.vacate] using same.length
  · exact same.getElem?_set found { p with status }
  · simp only [Machine.vacate, same.cpus]
    exact r.map_cpu_modify (fun c => (r.cpu_release c).symm) _ _
  · simp [Machine.vacate, same.trace, same.now, Retelling.event]

theorem evict (cpu : Nat) (victor victor' : Int) :
    Retold r (x.evict cpu victor) (y.evict cpu victor') := by
  cases occupied : x.occupant? cpu with
  | none =>
    simp only [Machine.evict, occupied, same.occupant?_of_none occupied]
    exact same
  | some e =>
    simp only [Machine.evict, occupied, same.occupant?_of_some occupied]
    exact same.vacate (occupant?_eq_some.1 occupied).2 ..

theorem sendToQueue (slot : Nat) :
    Retold r (x.sendToQueue slot) (y.sendToQueue (r.place slot)) := by
  cases policy : x.policy with
  | fcfs | srtf | sjf =>
    have policy' := same.policy_of_eq policy
    rw [sendToQueue_of_queue?_eq_none (by rw [policy]; rfl),
      sendToQueue_of_queue?_eq_none (by rw [policy']; rfl)]
    exact same
  | roundRobin quantum queue =>
    have policy' := same.policy_of_eq policy
    cases asked : queue.enqueue slot with
    | ok longer =>
      rw [sendToQueue_of_ok policy asked, sendToQueue_of_ok policy' (r.enqueue_queue asked)]
      exact { same with policy := rfl }
    | error e =>
      have asked' := r.enqueue_queue_error asked
      cases found : x.procs[slot]? with
      | none =>
        simp only [Machine.sendToQueue, policy, policy', Retelling.policy, Policy.enqueue?, asked,
          asked', Except.map, found, same.getElem?_of_none found]
        exact same
      | some p =>
        rw [sendToQueue_of_error policy asked found,
          sendToQueue_of_error policy' asked' (same.getElem?_of_some found)]
        exact { same with dropped := congrArg (· + 1) same.dropped }

/-! Arrivals. -/

theorem enrolled : Retold r x.enrolled y.enrolled := by
  have algorithm : y.policy.algorithm = x.policy.algorithm := by
    rw [same.policy, r.algorithm_policy]
  refine { same with length := ?_, procs := ?_ }
  · simpa [procs_enrolled] using same.length
  · intro slot
    simp only [procs_enrolled, List.getElem?_map, same.procs, algorithm, same.now,
      Option.map_map, Function.comp_def, r.record_enroll]

/-- Arrivals of one tick tie in the order of the queue, so they keep their order. -/
theorem arriving_eq (kept : r.KeepsTies .roundRobin x.jobs) :
    y.arriving = x.arriving.map r.place := by
  refine (pairwise_arriving y).eq_of_mem_iff ?_ fun k => ?_
  · refine List.pairwise_map.2 ((pairwise_arriving x).imp_of_mem fun {i j} first second lt => ?_)
    obtain ⟨p, found, at_once⟩ := mem_arriving.1 first
    obtain ⟨q, found', at_once'⟩ := mem_arriving.1 second
    have order := kept j i q.toJob p.toJob (by simp [jobs, found']) (by simp [jobs, found])
      (at_once'.trans at_once.symm)
    have apart : r.place i ≠ r.place j := r.place.injective.ne lt.ne
    omega
  · obtain ⟨slot, rfl⟩ := r.place.surjective k
    rw [List.mem_map_of_injective r.place.injective, mem_arriving, mem_arriving, same.procs,
      same.now]
    constructor
    · rintro ⟨q, found, at_once⟩
      obtain ⟨p, found', rfl⟩ := Option.map_eq_some_iff.1 found
      exact ⟨p, found', by simpa using at_once⟩
    · rintro ⟨p, found, at_once⟩
      exact ⟨r.record p, by rw [found, Option.map_some], by simpa using at_once⟩

theorem enqueued (kept : r.KeepsTies x.policy.algorithm x.jobs) :
    Retold r x.enqueued y.enqueued := by
  cases policy : x.policy with
  | fcfs | srtf | sjf =>
    have policy' := same.policy_of_eq policy
    rw [enqueued_eq_enrolled (by rw [policy]; rfl), enqueued_eq_enrolled (by rw [policy']; rfl)]
    exact same.enrolled
  | roundRobin quantum queue =>
    rw [policy] at kept
    simp only [Machine.enqueued, same.arriving_eq kept, List.foldl_map]
    exact List.foldl_rel same.enrolled fun slot _ _ _ so_far => so_far.sendToQueue slot

/-! Expiries. -/

theorem endSliceAt (quantum cpu : Nat) :
    Retold r (endSliceAt quantum cpu x) (endSliceAt quantum cpu y) := by
  cases occupied : x.occupant? cpu with
  | none =>
    simp only [Machine.endSliceAt, occupied, same.occupant?_of_none occupied]
    exact same
  | some e =>
    have used : (r.record e.2).sliceUsed = e.2.sliceUsed := rfl
    simp only [Machine.endSliceAt, occupied, same.occupant?_of_some occupied]
    by_cases fresh : e.2.sliceUsed < quantum
    · rw [if_pos fresh, if_pos (used ▸ fresh)]
      exact same
    · rw [if_neg fresh, if_neg (used ▸ fresh)]
      exact (same.vacate (occupant?_eq_some.1 occupied).2 ..).sendToQueue _

theorem endSlices (quantum : Nat) : Retold r (x.endSlices quantum) (y.endSlices quantum) := by
  unfold Machine.endSlices atEachCpu
  rw [same.size_cpus]
  exact List.foldl_rel same fun cpu _ _ _ so_far => so_far.endSliceAt quantum cpu

/-! Preemptions. -/

theorem challenger?_eq (kept : r.KeepsTies .srtf x.jobs) :
    Selection.challenger? y.procs y.now = (Selection.challenger? x.procs x.now).map r.place := by
  refine Selection.strictWeak_isShorter.bestIndex_moved Selection.strictWeak_isShorter r.place
    r.record same.procs (fun p _ => ?_) (fun p _ q _ _ _ => rfl) ?_
  · rw [r.status_record, same.now, r.arrivedBy_record]
  · intro i j p q found found' _ _
    exact kept i j p.toJob q.toJob (by simp [jobs, found]) (by simp [jobs, found']) trivial

theorem victims_eq (remaining : Nat) :
    Selection.victims y.cpus.toList y.procs remaining =
      (Selection.victims x.cpus.toList x.procs remaining).map fun e => (r.record e.1, e.2) := by
  simp only [Selection.victims, same.cpus, Array.toList_map, List.zipIdx_map, List.filterMap_map,
    List.map_filterMap]
  refine List.filterMap_congr fun e _ => ?_
  simp only [Function.comp_apply, Prod.map, same.occupant?_procs]
  cases Selection.occupant? x.procs e.1 with
  | none => rfl
  | some p =>
    by_cases longer : remaining < p.remaining <;> simp [longer]

theorem placeFor?_eq (slot : Nat) :
    Selection.placeFor? y.cpus.toList y.procs (r.place slot) =
      Selection.placeFor? x.cpus.toList x.procs slot := by
  have idle : y.cpus.toList.findIdx? (·.isIdle) = x.cpus.toList.findIdx? (·.isIdle) := by
    simp [same.cpus, Function.comp_def]
  simp only [Selection.placeFor?, idle]
  split
  · rfl
  · cases found : x.procs[slot]? with
    | none => simp [same.procs, found]
    | some p =>
      have first : Selection.best Selection.yieldsBefore _ = _ :=
        Selection.best_map (fun e : ProcessRecord × Nat => (r.record e.1, e.2)) (fun _ _ => rfl)
          (Selection.victims x.cpus.toList x.procs p.remaining)
      simp only [same.procs, found, Option.map_some, Option.bind_eq_bind, Option.bind_some,
        r.remaining_record, same.victims_eq, first, Option.bind_map]
      rfl

theorem preemption?_eq (kept : r.KeepsTies .srtf x.jobs) :
    y.preemption? = x.preemption?.map fun e => (r.place e.1, r.record e.2.1, e.2.2) := by
  unfold preemption?
  rw [same.challenger?_eq kept]
  cases Selection.challenger? x.procs x.now with
  | none => rfl
  | some slot =>
    cases found : x.procs[slot]? with
    | none => simp [same.procs, found]
    | some p =>
      simp only [Option.map_some, Option.bind_eq_bind, Option.bind_some, same.procs, found,
        same.placeFor?_eq, Option.map_bind]
      rfl

omit same in
theorem preemptAtMost (n : Nat) (same : Retold r x y) (kept : r.KeepsTies .srtf x.jobs) :
    Retold r (preemptAtMost n x) (preemptAtMost n y) := by
  induction n generalizing x y with
  | zero => exact same
  | succ n ih =>
    have preempts' := same.preemption?_eq kept
    cases preempts : x.preemption? with
    | none =>
      rw [preempts, Option.map_none] at preempts'
      simp only [Machine.preemptAtMost, preempts, preempts']
      exact same
    | some e =>
      rw [preempts, Option.map_some] at preempts'
      simp only [Machine.preemptAtMost, preempts, preempts']
      refine ih ((same.evict ..).dispatch ..) ?_
      rw [jobs_dispatch, jobs_evict]
      exact kept

theorem preempt (hx : Consistent x) (hy : Consistent y) (srtf : x.policy = .srtf)
    (kept : r.KeepsTies .srtf x.jobs) : Retold r x.preempt y.preempt := by
  have srtf' : y.policy = .srtf := same.policy_of_eq srtf
  rw [preempt_eq_preemptAtMost hx.matching (Nat.le_max_left _ y.readyCount),
    preempt_eq_preemptAtMost hy.matching (Nat.le_max_right x.readyCount _)]
  exact same.preemptAtMost _ kept

theorem rescheduled (restx : AtRest x) (resty : AtRest y)
    (kept : r.KeepsTies x.policy.algorithm x.jobs) : Retold r x.rescheduled y.rescheduled := by
  have told := same.enqueued kept
  rw [rescheduled_eq, rescheduled_eq]
  cases policy : x.policy with
  | fcfs | sjf =>
    rw [same.policy_of_eq policy]
    exact told
  | roundRobin quantum queue =>
    rw [same.policy_of_eq policy]
    exact told.endSlices quantum
  | srtf =>
    have policy' : y.policy = .srtf := same.policy_of_eq policy
    have no_queue : x.policy.queue? = none := by rw [policy]; rfl
    have no_queue' : y.policy.queue? = none := by rw [policy']; rfl
    rw [policy] at kept
    rw [policy', enqueued_eq_enrolled no_queue, enqueued_eq_enrolled no_queue']
    refine same.enrolled.preempt restx.enrolled resty.enrolled policy ?_
    rw [jobs_eq_of_accounts_eq x.accounts_enrolled]
    exact kept

/-! Choices. -/

/-- A scan by a key that tells the time by the same clock, or by none. -/
theorem bestWaiting?_eq {key : ProcessRecord → Nat} (ahead : Nat)
    (shifted : ∀ p, key (r.record p) = key p + ahead)
    (kept : ∀ (i j : Nat) p q, x.procs[i]? = some p → x.procs[j]? = some q → key p = key q →
      p.priority = q.priority → p.arrival = q.arrival → r.place i < r.place j → i < j) :
    Selection.bestWaiting? key y.procs y.now =
      (Selection.bestWaiting? key x.procs x.now).map r.place := by
  have order := Selection.strictWeak_precedes key
  refine order.bestIndex_moved order r.place r.record same.procs (fun p _ => ?_)
    (fun p _ q _ _ _ => r.precedes_record shifted p q) fun i j p q found found' loses loses' => ?_
  · rw [r.status_record, same.now, r.arrivedBy_record]
  · obtain ⟨keys, priorities, arrivals⟩ := Selection.tie_of_precedes loses loses'
    exact kept i j p q found found' keys priorities arrivals

theorem choose (kept : r.KeepsTies x.policy.algorithm x.jobs) :
    y.choose.1 = x.choose.1.map r.place ∧ Retold r x.choose.2 y.choose.2 := by
  have kept' : ∀ (i j : Nat) p q, x.procs[i]? = some p → x.procs[j]? = some q →
      x.policy.algorithm.Ties p.toJob q.toJob → r.place i < r.place j → i < j :=
    fun i j p q found found' => kept i j _ _ (by simp [jobs, found]) (by simp [jobs, found'])
  cases policy : x.policy with
  | fcfs =>
    have policy' := same.policy_of_eq policy
    rw [policy] at kept'
    simp only [Machine.choose, policy, policy', Retelling.policy, Policy.next]
    exact ⟨same.bestWaiting?_eq r.delay (fun _ => rfl)
      fun i j p q found found' keys priorities _ =>
      kept' i j p q found found' ⟨keys, priorities⟩, { same with policy := rfl }⟩
  | roundRobin quantum queue =>
    have policy' := same.policy_of_eq policy
    simp only [Machine.choose, policy, policy', Retelling.policy, Policy.next, r.dequeue_queue]
    exact ⟨trivial, { same with policy := rfl }⟩
  | srtf =>
    have policy' := same.policy_of_eq policy
    rw [policy] at kept'
    simp only [Machine.choose, policy, policy', Retelling.policy, Policy.next]
    exact ⟨same.bestWaiting?_eq 0 (fun _ => rfl) fun i j p q found found' _ _ _ =>
      kept' i j p q found found' trivial, { same with policy := rfl }⟩
  | sjf =>
    have policy' := same.policy_of_eq policy
    rw [policy] at kept'
    simp only [Machine.choose, policy, policy', Retelling.policy, Policy.next]
    exact ⟨same.bestWaiting?_eq 0 (fun _ => rfl)
      fun i j p q found found' keys priorities arrivals =>
        kept' i j p q found found' ⟨keys, priorities, arrivals⟩, { same with policy := rfl }⟩

omit same in
theorem occupyThese (cpus : List Nat) (same : Retold r x y)
    (kept : r.KeepsTies x.policy.algorithm x.jobs) :
    Retold r (x.occupyThese cpus) (y.occupyThese cpus) := by
  refine occupyThese_induction (P := fun cpus x x' => ∀ y, Retold r x y →
    r.KeepsTies x.policy.algorithm x.jobs → Retold r x' (y.occupyThese cpus)) ?_ ?_ ?_ ?_ cpus x y
    same kept
  · exact fun x y same _ => same
  · intro cpu rest x working ih y same kept
    rw [occupyThese_cons_of_busy rest ((same.isIdleAt_eq cpu).trans working)]
    exact ih y same kept
  · intro cpu rest x idle no_choice y same kept
    obtain ⟨choice, told⟩ := same.choose kept
    rw [no_choice] at choice
    rw [occupyThese_cons_of_no_choice rest ((same.isIdleAt_eq cpu).trans idle) choice]
    exact told
  · intro cpu rest x slot idle chosen ih y same kept
    obtain ⟨choice, told⟩ := same.choose kept
    rw [chosen] at choice
    rw [occupyThese_cons_of_choice rest ((same.isIdleAt_eq cpu).trans idle) choice]
    refine ih _ (told.dispatch cpu slot) ?_
    rw [policy_dispatch, algorithm_choose, jobs_dispatch]
    exact kept

theorem occupied (restx : AtRest x) (resty : AtRest y)
    (kept : r.KeepsTies x.policy.algorithm x.jobs) : Retold r x.occupied y.occupied := by
  have told := same.rescheduled restx resty kept
  unfold Machine.occupied occupyIdle
  rw [told.size_cpus]
  refine told.occupyThese _ ?_
  have moves : Moves x.enrolled x.rescheduled :=
    restx.moves_enqueued.trans (moves_rescheduled restx.consistent_enqueued)
  have algorithm : x.rescheduled.policy.algorithm = x.policy.algorithm := by
    rw [← Policy.algorithm_rule, moves.rule_eq, Policy.algorithm_rule]
    rfl
  have jobs : x.rescheduled.jobs = x.jobs :=
    jobs_eq_of_accounts_eq (moves.accounts_eq.trans x.accounts_enrolled)
  rw [algorithm, jobs]
  exact kept

/-! The second half of a tick. -/

theorem snapshot : Retold r x.snapshot y.snapshot := by
  have told := same.timeline.write x.now x.occupancy
  refine { same with timeline := ?_ }
  simp only [Machine.snapshot, same.now, same.occupancy_eq]
  exact told

theorem ageWaiting : Retold r x.ageWaiting y.ageWaiting := by
  refine { same with length := ?_, procs := ?_ }
  · simpa [Machine.ageWaiting] using same.length
  · intro slot
    simp only [Machine.ageWaiting, List.getElem?_map, same.procs, same.now, Option.map_map,
      Function.comp_def, r.record_ageWaiting]

theorem retire (cpu : Nat) (p : ProcessRecord) :
    Retold r (x.retire cpu p) (y.retire cpu (r.record p)) := by
  refine { same with cpus := ?_, trace := ?_, completed := congrArg (· + 1) same.completed }
  · simp only [Machine.retire, same.cpus]
    exact r.map_cpu_modify (fun c => (r.cpu_release c).symm) _ _
  · simp [Machine.retire, same.trace, same.now, Retelling.event, Nat.add_right_comm]

theorem workAt (cpu : Nat) : Retold r (workAt cpu x) (workAt cpu y) := by
  have cpus : y.cpus.modify cpu Cpu.elapse = (x.cpus.modify cpu Cpu.elapse).map r.cpu := by
    rw [same.cpus]
    exact r.map_cpu_modify (fun c => (r.cpu_elapse c).symm) _ _
  cases occupied : x.occupant? cpu with
  | none =>
    rw [workAt_of_vacant occupied, workAt_of_vacant (same.occupant?_of_none occupied)]
    exact { same with cpus }
  | some e =>
    obtain ⟨holds, found⟩ := occupant?_eq_some.1 occupied
    obtain ⟨holds', found'⟩ := occupant?_eq_some.1 (same.occupant?_of_some occupied)
    have worked : Retold r
        { x with procs := x.procs.set e.1 (e.2.work x.now), cpus := x.cpus.modify cpu Cpu.elapse }
        { y with
          procs := y.procs.set (r.place e.1) ((r.record e.2).work y.now)
          cpus := y.cpus.modify cpu Cpu.elapse } := by
      refine { same with length := ?_, procs := ?_, cpus }
      · simpa using same.length
      · simp only [same.now, ← r.record_work]
        exact same.getElem?_set found _
    have left : (r.record e.2).remaining = e.2.remaining := rfl
    rw [workAt_of_held holds found, workAt_of_held holds' found']
    by_cases last : e.2.remaining ≤ 1
    · rw [if_pos last, if_pos (left ▸ last)]
      exact worked.retire cpu e.2
    · rw [if_neg last, if_neg (left ▸ last)]
      exact worked

theorem work : Retold r x.work y.work := by
  unfold Machine.work atEachCpu
  rw [same.size_cpus]
  exact List.foldl_rel same fun cpu _ _ _ so_far => so_far.workAt cpu

theorem step (restx : AtRest x) (resty : AtRest y) (kept : r.KeepsTies x.policy.algorithm x.jobs) :
    Retold r x.step y.step := by
  have worked : Retold r x.worked y.worked :=
    (same.occupied restx resty kept).snapshot.ageWaiting.work
  exact { worked with now := by rw [step_eq, advance, worked.now, Nat.add_right_comm]; rfl }

theorem steps (restx : AtRest x) (resty : AtRest y) (kept : r.KeepsTies x.policy.algorithm x.jobs)
    (n : Nat) : Retold r (x.steps n) (y.steps n) := by
  induction n with
  | zero => exact same
  | succ n ih =>
    rw [steps_succ, steps_succ]
    refine ih.step (restx.steps n) (resty.steps n) ?_
    rw [restx.algorithm_steps, restx.jobs_steps]
    exact kept

theorem conclude (limit limit' : Nat) : Retold r (x.conclude limit) (y.conclude limit') :=
  { same with }

theorem ending_eq (limit : Nat) : y.ending (limit + r.delay) = r.ending (x.ending limit) := by
  unfold ending
  rw [same.allFinished_eq]
  split <;> rfl

end Retold

/-- Two simulations, the clock of the second ahead, are told alike from start to end if they are so
when the second has come to where the first begins. -/
theorem simulate_retold (d : Discipline) {s s' : Scenario} (bound : s'.bound = s.bound + r.delay)
    (kept : r.KeepsTies d.algorithm s.jobs)
    (start : Retold r (begun d s) ((begun d s').steps r.delay))
    (early : ∀ i < r.delay, ((begun d s').steps i).allFinished = false) :
    Retold r (simulate d s).machine (simulate d s').machine ∧
      (simulate d s').ending = r.ending (simulate d s).ending := by
  have rest := atRest_begun d s
  have rest' := atRest_begun d s'
  have algorithm : (begun d s).policy.algorithm = d.algorithm :=
    Policy.algorithm_start d.quantum d.algorithm
  have told : ∀ n, Retold r ((begun d s).steps n) ((begun d s').steps (r.delay + n)) := by
    intro n
    rw [steps_add]
    exact start.steps rest (rest'.steps _) (by rwa [algorithm, jobs_begun]) n
  obtain ⟨k, outcome, outcome'⟩ :=
    simulate_later d d bound early fun n => (told n).allFinished_eq
  rw [outcome, outcome', bound]
  exact ⟨(told k).conclude .., (told k).ending_eq s.bound⟩

/-- Scenarios whose jobs are told anew by the same clock. -/
theorem retold_begun (d : Discipline) {s s' : Scenario} (cpus : s'.cpus = s.cpus)
    (length : s'.jobs.length = s.jobs.length)
    (jobs : ∀ slot, s'.jobs[r.place slot]? = s.jobs[slot]?.map r.job) (at_once : r.delay = 0) :
    Retold r (begun d s) (begun d s') where
  length := by simpa [begun, say, boot, ProcessTable.ofJobs] using length
  procs slot := by
    simp [begun, say, boot, ProcessTable.ofJobs, jobs, Function.comp_def, r.record_toRecord]
  cpus := by simp [begun, say, boot, cpus, Retelling.cpu, at_once]
  policy := (r.policy_start d.quantum d.algorithm).symm
  timeline :=
    ⟨cpus, by simp [begun, say, boot, Retelling.rows, at_once], fun _ => rfl⟩
  trace := by simp [begun, say, boot]
  now := by simp [begun, say, boot, at_once]
  completed := rfl
  dropped := rfl

end Machine
end CpuScheduling
