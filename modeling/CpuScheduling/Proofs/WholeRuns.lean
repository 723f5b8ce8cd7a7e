import CpuScheduling.Proofs.FirstCome
import CpuScheduling.Proofs.Lifecycle
import CpuScheduling.Proofs.Portions
/-!
Whole runs. Under a policy that does not mark its arrivals as ready nobody loses a processor. So a
process waits without a dispatch, or it got one dispatch and then a processor for the ticks of its
burst and for no other tick.
-/
namespace CpuScheduling.Machine
variable {m : Machine} {cpu slot : Nat} {cpus : List Nat} {plan : Placement} {e : Job × Nat}

/-- What a filling gave to one slot. -/
def givenTo (fills : List (Nat × Nat)) (slot : Nat) : List (Nat × Nat) :=
  fills.filter fun fill => fill.2 == slot

theorem givenTo_cons_of_ne {fills : List (Nat × Nat)} {other : Nat} (apart : slot ≠ other)
    (cpu : Nat) : givenTo ((cpu, other) :: fills) slot = givenTo fills slot :=
  List.filter_cons_of_neg (by simpa using apart.symm)

theorem givenTo_cons_self (fills : List (Nat × Nat)) (cpu slot : Nat) :
    givenTo ((cpu, slot) :: fills) slot = (cpu, slot) :: givenTo fills slot :=
  List.filter_cons_of_pos (by simp)

/-! Who holds a processor. -/

theorem Pending.not_held (pending : m.Pending e) (h : Consistent m) :
    m.held cpu ≠ some e.2 := by
  intro holds
  obtain ⟨r, found, -, waiting, -⟩ := pending
  cases waiting.symm.trans (h.running_of_held holds found)

/-- Who was placed holds his processor as long as planned, and no other one ever. -/
theorem Placed.held_iff (placed : m.Placed plan) (h : Consistent m) (cpu : Nat) :
    m.held cpu = some plan.slot ↔ plan.Covers m.now cpu := by
  obtain ⟨r, found, -, -, past, state⟩ := placed
  rw [h.matching cpu plan.slot, status?_of_getElem? found, Option.some.injEq]
  rcases state with ⟨running, work_left, ends⟩ | ⟨completed, -, ended⟩
  · rw [running, Status.running.injEq]
    constructor
    · rintro rfl
      exact ⟨rfl, past, by omega⟩
    · exact fun covers => covers.1
  · rw [completed]
    refine ⟨nofun, fun covers => absurd covers.2.2 ?_⟩
    omega

/-! A filling: who was placed stays where he is, and who waits may be placed once. -/

theorem Placed.ne_of_choose (placed : m.Placed plan) (h : Consistent m)
    (chosen : m.choose.1 = some slot) : plan.slot ≠ slot := by
  rintro rfl
  obtain ⟨p, found, pending, -⟩ := pending_of_choose h chosen
  obtain ⟨r, found', -, -, -, state⟩ := placed
  cases found.symm.trans found'
  rcases state with ⟨running, -⟩ | ⟨completed, -⟩
  · exact ProcessRecord.not_pending running nofun nofun pending
  · exact ProcessRecord.not_pending completed nofun nofun pending

/-- Who was placed gets nothing, and who stands in line gets nothing and stays there, or gets one
processor and is placed on it. -/
theorem givenTo_occupyThese (h : Consistent m) (nodup : cpus.Nodup) :
    let fills := filled cpus m (m.occupyThese cpus)
    (∀ plan, m.Placed plan →
      (m.occupyThese cpus).Placed plan ∧ givenTo fills plan.slot = []) ∧
    ∀ e, m.Pending e → (m.occupyThese cpus).Pending e ∧ givenTo fills e.2 = [] ∨
      ∃ cpu, (m.occupyThese cpus).Placed ⟨e.1, e.2, cpu, m.now⟩ ∧
        givenTo fills e.2 = [(cpu, e.2)] := by
  refine filling_induction
    (P := fun fills x y => (∀ plan, x.Placed plan → y.Placed plan ∧ givenTo fills plan.slot = []) ∧
      ∀ e, x.Pending e → y.Pending e ∧ givenTo fills e.2 = [] ∨
        ∃ cpu, y.Placed ⟨e.1, e.2, cpu, x.now⟩ ∧ givenTo fills e.2 = [(cpu, e.2)])
    ?nil ?exhausted ?served h nodup
  case nil => exact fun _ => ⟨fun _ placed => ⟨placed, rfl⟩, fun _ pending => .inl ⟨pending, rfl⟩⟩
  case exhausted =>
    exact fun _ _ => ⟨fun _ placed => ⟨placed, rfl⟩, fun _ pending => .inl ⟨pending, rfl⟩⟩
  case served =>
    intro x y cpu slot fills hx chosen _ ih
    constructor
    · intro plan placed
      have placed' : x.choose.2.Placed plan := placed
      have apart := placed.ne_of_choose hx chosen
      rw [givenTo_cons_of_ne apart]
      exact ih.1 plan (placed'.dispatch_of_ne apart)
    · intro e pending
      have pending' : x.choose.2.Pending e := pending
      have now : (x.choose.2.dispatch cpu slot).now = x.now := now_dispatch ..
      by_cases same : e.2 = slot
      · subst same
        obtain ⟨placed, no_more⟩ := ih.1 _ (pending'.dispatch cpu)
        exact .inr ⟨cpu, placed, (givenTo_cons_self ..).trans (congrArg _ no_more)⟩
      · rw [givenTo_cons_of_ne same, ← now]
        exact ih.2 e (pending'.dispatch_of_ne same)

/-! The dispatches of a tick are those of its filling. -/

/-- The processors that a tick fills, with the slots that they get. -/
def fills (m : Machine) : List (Nat × Nat) :=
  filled (List.range m.rescheduled.cpus.size) m.rescheduled m.occupied

theorem held_of_mem_fills (member : (cpu, slot) ∈ m.fills) : m.occupied.held cpu = some slot :=
  (mem_filled.1 member).2.2

theorem filter_dispatches {fills : List (Nat × Nat)} {held : Nat → Option Nat}
    (shown : ∀ fill ∈ fills, held fill.1 = some fill.2) :
    (m.dispatches fills).filter (fun d => decide (held d.cpu = some slot)) =
      m.dispatches (givenTo fills slot) := by
  rw [dispatches, List.filter_filterMap, dispatches, givenTo, List.filterMap_filter]
  refine List.filterMap_congr fun fill member => ?_
  cases m.jobs[fill.2]? with
  | none => simp
  | some job => simp [shown fill member, Option.filter]

section Tick
variable (rest : AtRest m) (unmarked : m.policy.algorithm.marksReady = false)
include rest unmarked

theorem AtRest.entered_fills : Entered m m.occupied (m.dispatches m.fills) := by
  have steady : m.policy = .srtf → Converged m := by
    intro srtf
    rw [srtf] at unmarked
    cases unmarked
  have before : m.rescheduled.trace = m.trace ∧ m.rescheduled.jobs = m.jobs := by
    rw [jobs, procs_rescheduled_of_unmarked unmarked, rescheduled_of_unmarked unmarked]
    exact ⟨rfl, rfl⟩
  obtain ⟨fresh, entered⟩ := rest.entered_occupied steady
  have record : m.occupied.trace.ofKind .dispatched =
      m.trace.ofKind .dispatched ++ m.dispatches m.fills := by
    have filling : m.occupied.trace.toList =
        m.rescheduled.trace.toList ++ m.rescheduled.dispatches m.fills :=
      trace_occupyThese rest.consistent_rescheduled List.nodup_range
    have kinds : ∀ e ∈ m.dispatches m.fills, e.kind = .dispatched := by
      intro e member
      obtain ⟨cpu, slot, job, -, -, rfl⟩ := mem_dispatches.1 member
      rfl
    rw [dispatches, before.2, now_rescheduled_of_unmarked unmarked, before.1] at filling
    rw [Trace.ofKind, filling, List.filter_append, Trace.ofKind]
    exact congrArg _ (List.filter_eq_self.2 fun e member => decide_eq_true (kinds e member))
  obtain rfl : fresh = m.dispatches m.fills :=
    List.append_cancel_left (entered.record.symm.trans record)
  exact entered

theorem AtRest.givenTo_fills :
    (∀ plan, m.Placed plan → m.occupied.Placed plan ∧ givenTo m.fills plan.slot = []) ∧
    ∀ e, m.Pending e → m.occupied.Pending e ∧ givenTo m.fills e.2 = [] ∨
      ∃ cpu, m.occupied.Placed ⟨e.1, e.2, cpu, m.now⟩ ∧ givenTo m.fills e.2 = [(cpu, e.2)] := by
  have procs := procs_rescheduled_of_unmarked unmarked
  have now := now_rescheduled_of_unmarked unmarked
  have filling := givenTo_occupyThese rest.consistent_rescheduled
    (List.nodup_range (n := m.rescheduled.cpus.size))
  unfold Placed Pending at filling ⊢
  rw [procs, now] at filling
  exact filling

end Tick

/-! Runs. -/

/-- The course of one process in the first `n` ticks of a run. -/
inductive Course (start : Machine) (n slot : Nat) : Prop
  | pending (job : Job) (pending : (start.steps n).Pending (job, slot))
      (undispatched : start.dispatchesOf n slot = [])
      (off : ∀ tick < n, ∀ cpu, (start.steps tick).occupied.held cpu ≠ some slot)
  | placed (plan : Placement) (at_slot : plan.slot = slot) (placed : (start.steps n).Placed plan)
      (once : start.dispatchesOf n slot = [plan.event])
      (held_iff : ∀ tick < n, ∀ cpu,
        (start.steps tick).occupied.held cpu = some slot ↔ plan.Covers tick cpu)

section Run
variable {start : Machine} (o : Outset start)
  (unmarked : start.policy.algorithm.marksReady = false) {n : Nat}
include o unmarked

theorem Outset.dispatchesOf_succ (n slot : Nat) : start.dispatchesOf (n + 1) slot =
    start.dispatchesOf n slot ++
      (start.steps n).dispatches (givenTo (start.steps n).fills slot) := by
  have unmarked' := (o.toAtRest.algorithm_steps n).symm ▸ unmarked
  rw [o.toAtRest.dispatchesOf_succ o.zero ((o.toAtRest.steps n).entered_fills unmarked')]
  exact congrArg _ (filter_dispatches fun fill member => held_of_mem_fills member)

/-- A tick puts who stands in line on at most one processor, and leaves who was placed where he
was. -/
theorem Course.step (course : Course start n slot) : Course start (n + 1) slot := by
  have rest := o.toAtRest.steps n
  have unmarked' := (o.toAtRest.algorithm_steps n).symm ▸ unmarked
  have now := o.now_steps n
  have occupied_now : (start.steps n).occupied.now = n := rest.now_occupied.trans now
  have dispatches := o.dispatchesOf_succ unmarked n slot
  have given := rest.givenTo_fills unmarked'
  cases course with
  | pending job pending undispatched off =>
    rcases given.2 _ pending with ⟨stays, nothing⟩ | ⟨cpu, placed, one⟩
    · refine .pending job ?_ ?_ ?_
      · rw [steps_succ]
        exact stays.step rest
      · rw [dispatches, undispatched, nothing]
        rfl
      · intro tick early cpu
        rcases Nat.lt_succ_iff_lt_or_eq.1 early with before | rfl
        · exact off tick before cpu
        · exact stays.not_held rest.consistent_occupied
    · have known : (start.steps n).jobs[slot]? = some job := by
        obtain ⟨r, found, rfl, -⟩ := pending
        exact job_of_getElem? found
      refine .placed ⟨job, slot, cpu, n⟩ rfl ?_ ?_ ?_
      · rw [steps_succ]
        exact (now ▸ placed).step rest
      · rw [dispatches, undispatched, one, Machine.dispatches, List.filterMap_cons, known, now]
        rfl
      · intro tick early c
        rcases Nat.lt_succ_iff_lt_or_eq.1 early with before | rfl
        · exact ⟨fun holds => absurd holds (off tick before c),
            fun covers => absurd covers.2.1 (Nat.not_le_of_lt before)⟩
        · have holds := placed.held_iff rest.consistent_occupied c
          rwa [occupied_now, now] at holds
  | placed plan at_slot placed once held_iff =>
    subst at_slot
    obtain ⟨stays, nothing⟩ := given.1 plan placed
    refine .placed plan rfl ?_ ?_ ?_
    · rw [steps_succ]
      exact stays.step rest
    · rw [dispatches, once, nothing]
      rfl
    · intro tick early cpu
      rcases Nat.lt_succ_iff_lt_or_eq.1 early with before | rfl
      · exact held_iff tick before cpu
      · rw [stays.held_iff rest.consistent_occupied, occupied_now]

theorem Outset.course (inside : slot < start.procs.length) (n : Nat) : Course start n slot := by
  induction n with
  | zero =>
    have found := List.getElem?_eq_getElem inside
    have member := List.mem_of_getElem? found
    have fresh := o.fresh _ member
    refine .pending start.procs[slot].toJob ⟨_, found, rfl, ?_, ?_, ?_, ?_⟩ ?_ nofun
    · rw [fresh]
      rfl
    · rw [fresh]
      rfl
    · rw [fresh]
      rfl
    · refine o.balanced.work_left member ?_
      rw [fresh]
      rfl
    · rw [dispatchesOf, Trace.ofKind, Machine.steps, o.blank]
      rfl
  | succ n ih => exact ih.step o unmarked

end Run

/-- A process runs whole from one dispatch on: it is on that processor in the ticks of its burst and
on none in any other tick, the rows show it there, and once it has completed it has waited for
nothing but the dispatch. -/
structure RunsWhole (start : Machine) (n slot : Nat) (p : ProcessRecord) (d : Event) : Prop where
  only : start.dispatchesOf n slot = [d]
  start_eq : p.start = some d.tick
  held_iff : ∀ tick < n, ∀ cpu, (start.steps tick).occupied.held cpu = some slot ↔
    cpu = d.cpu ∧ d.tick ≤ tick ∧ tick < d.tick + p.burst
  shown : ∀ tick < n, d.tick ≤ tick → tick < d.tick + p.burst →
    (start.steps n).timeline.get tick d.cpu = some p.pid
  completed : p.status = .completed →
    p.finish = some (d.tick + p.burst) ∧ p.response = some p.waited ∧ p.response = p.netWaiting

section Record
variable {start : Machine} (o : Outset start) {n : Nat} {p : ProcessRecord}
  (found : (start.steps n).procs[slot]? = some p)
include o found

theorem Outset.get_of_held (charted : Charted start) {tick : Nat} (early : tick < n)
    (holds : (start.steps tick).occupied.held cpu = some slot) :
    (start.steps n).timeline.get tick cpu = some p.pid := by
  have rest := o.toAtRest.steps tick
  obtain ⟨q, at_slot, -⟩ := rest.consistent_occupied.slot_lt_of_held holds
  have same : q.pid = p.pid := congrArg (·.pid) (o.toAtRest.toJob_occupied at_slot found)
  have get := charted.get_steps o.toAtRest early cpu
  rwa [o.zero, Nat.zero_add, running_of_held holds at_slot, same] at get

/-- Who finishes a burst after his start has waited for the start alone. -/
theorem Outset.response_eq_waited {t : Nat} (start_eq : p.start = some t)
    (finish : p.finish = some (t + p.burst)) :
    p.response = some p.waited ∧ p.response = p.netWaiting := by
  have balanced := o.balanced.steps o.toAtRest n
  obtain ⟨whole, -⟩ := balanced.finish_eq (List.mem_of_getElem? found) finish
  have response : p.response = some (t - p.arrival) := by
    rw [o.response_eq found, start_eq]
    rfl
  have net : p.netWaiting = some (t + p.burst - p.arrival - p.burst) := by
    rw [ProcessRecord.netWaiting, ProcessRecord.turnaround, finish]
    rfl
  rw [response, net, Option.some.injEq, Option.some.injEq]
  omega

theorem Outset.runsWhole (charted : Charted start)
    (unmarked : start.policy.algorithm.marksReady = false) (started : p.start.isSome = true) :
    ∃ d, RunsWhole start n slot p d := by
  have inside : slot < start.procs.length := by
    rw [← o.toAtRest.length_procs_steps n]
    exact (List.getElem?_eq_some_iff.1 found).1
  cases o.course unmarked inside n with
  | pending job pending =>
    obtain ⟨r, found', -, -, unstarted, -⟩ := pending
    cases found.symm.trans found'
    rw [unstarted] at started
    cases started
  | placed plan at_slot placed once held_iff =>
    subst at_slot
    obtain ⟨r, found', job, start_eq, -, state⟩ := placed
    cases found.symm.trans found'
    have ends : plan.finish = plan.start + p.burst := by
      rw [Placement.finish, ← job]
    have held : ∀ tick < n, ∀ cpu, (start.steps tick).occupied.held cpu = some plan.slot ↔
        cpu = plan.cpu ∧ plan.start ≤ tick ∧ tick < plan.start + p.burst := by
      intro tick early cpu
      rw [held_iff tick early, Placement.Covers, ends, eq_comm]
    refine ⟨plan.event, once, start_eq, held, ?shown, ?completed⟩
    case shown =>
      intro tick early since upto
      have holds := (held tick early plan.cpu).2 ⟨rfl, since, upto⟩
      exact o.get_of_held found charted early holds
    case completed =>
      intro done
      rcases state with ⟨running, -⟩ | ⟨-, finish, -⟩
      · cases done.symm.trans running
      · rw [ends] at finish
        exact ⟨finish, o.response_eq_waited found start_eq finish⟩

end Record

end CpuScheduling.Machine
