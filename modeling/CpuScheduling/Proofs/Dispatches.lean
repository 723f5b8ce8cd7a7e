import CpuScheduling.Proofs.Eviction
import Mathlib.Data.List.Find
/-!
Dispatches. Whoever gets a processor in a tick holds it at the row of that tick, under every policy.
So each dispatch that a run records is one of the process that the row shows, and a process starts
in the tick of its first.
-/
namespace CpuScheduling.Machine

/-- When the process of a slot was started, if it was. -/
def startOf (m : Machine) (slot : Nat) : Option Nat := m.procs[slot]?.bind (·.start)

/-- The first of some dispatches to a processor that holds a slot. -/
def firstOf (m : Machine) (dispatches : List Event) (slot : Nat) : Option Event :=
  dispatches.find? fun d => decide (m.held d.cpu = some slot)

/-- A machine amid its tick, with the dispatches of the tick so far: the processor of each still
holds the process that it names, and of these processes those have started that had not before. -/
structure Entered (m x : Machine) (fresh : List Event) : Prop where
  now : x.now = m.now
  jobs : x.jobs = m.jobs
  record : x.trace.ofKind .dispatched = m.trace.ofKind .dispatched ++ fresh
  at_once : ∀ d ∈ fresh, d.tick = m.now
  shown : ∀ d ∈ fresh, x.running d.cpu = some d.pid
  startOf_eq : ∀ slot, x.startOf slot =
    (m.startOf slot).or ((x.firstOf fresh slot).map (·.tick))

variable {m x y : Machine} {fresh : List Event} {cpu slot : Nat} {p : ProcessRecord}

theorem startOf_dispatch (found : x.procs[slot]? = some p) :
    (x.dispatch cpu slot).startOf =
      Function.update x.startOf slot ((x.startOf slot).or (some x.now)) := by
  funext s
  by_cases here : s = slot
  · subst here
    rw [Function.update_self, startOf, getElem?_procs_dispatch found, startOf, found]
    rfl
  · rw [Function.update_of_ne here, startOf, getElem?_procs_dispatch_of_ne x cpu slot here, startOf]

theorem startOf_eq_of_map_eq (same : y.procs.map (·.start) = x.procs.map (·.start)) :
    y.startOf = x.startOf := by
  have startOf_eq : ∀ z : Machine, z.startOf = fun slot => (z.procs.map (·.start))[slot]?.join := by
    intro z
    funext slot
    rw [startOf, List.getElem?_map]
    cases z.procs[slot]? <;> rfl
  rw [startOf_eq, startOf_eq, same]

theorem firstOf_congr {dispatches : List Event}
    (same : ∀ d ∈ dispatches, y.held d.cpu = x.held d.cpu) (slot : Nat) :
    y.firstOf dispatches slot = x.firstOf dispatches slot := by
  refine List.find?_congr fun d member => ?_
  rw [same d member]

namespace Entered

theorem enrolled (m : Machine) : Entered m m.enrolled [] where
  now := rfl
  jobs := jobs_eq_of_accounts_eq m.accounts_enrolled
  record := (List.append_nil _).symm
  at_once := nofun
  shown := nofun
  startOf_eq slot := by
    have same : m.enrolled.startOf = m.startOf := by
      refine startOf_eq_of_map_eq ?_
      rw [procs_enrolled, List.map_map]
      exact List.map_congr_left fun p _ => p.start_enroll _ _
    rw [same]
    exact (Option.or_none ..).symm

theorem congr (e : Entered m x fresh) (procs : y.procs = x.procs) (held : y.held = x.held)
    (trace : y.trace = x.trace) (now : y.now = x.now) : Entered m y fresh := by
  have jobs : y.jobs = x.jobs := by rw [Machine.jobs, procs, Machine.jobs]
  have starts : y.startOf = x.startOf := startOf_eq_of_map_eq (by rw [procs])
  refine ⟨now.trans e.now, jobs.trans e.jobs, trace ▸ e.record, e.at_once, ?_, fun slot => ?_⟩
  · rw [running_eq_of_held_eq jobs held]
    exact e.shown
  · rw [starts, firstOf_congr fun d _ => congrFun held d.cpu]
    exact e.startOf_eq slot

theorem sendToQueue (e : Entered m x fresh) (slot : Nat) : Entered m (x.sendToQueue slot) fresh :=
  e.congr (procs_sendToQueue x slot) (held_sendToQueue x slot) (trace_sendToQueue x slot)
    (now_sendToQueue x slot)

theorem choose (e : Entered m x fresh) : Entered m x.choose.2 fresh := e.congr rfl rfl rfl rfl

theorem busy_of_mem (e : Entered m x fresh) {d : Event} (member : d ∈ fresh) :
    x.held d.cpu ≠ none := by
  intro free
  have shown := e.shown d member
  rw [running_of_free free] at shown
  cases shown

/-- The occupant of a processor leaves it that nobody got in this tick. -/
theorem vacate (e : Entered m x fresh) (holds : x.held cpu = some slot)
    (found : x.procs[slot]? = some p) (apart : ∀ d ∈ fresh, d.cpu ≠ cpu) {status : Status}
    {kind : Event.Kind} (ends : kind ≠ .dispatched) (notice : Log.Notice) :
    Entered m (x.vacate cpu slot p status kind notice) fresh := by
  have jobs : (x.vacate cpu slot p status kind notice).jobs = x.jobs := map_set_of_eq found rfl
  have starts : (x.vacate cpu slot p status kind notice).startOf = x.startOf :=
    startOf_eq_of_map_eq (map_set_of_eq found rfl)
  have held : (x.vacate cpu slot p status kind notice).held = Function.update x.held cpu none :=
    held_vacate (held_lt holds)
  have record : (x.vacate cpu slot p status kind notice).trace.ofKind .dispatched =
      x.trace.ofKind .dispatched := by
    refine (Trace.ofKind_push .dispatched x.trace _).trans ?_
    rw [if_neg ends, List.append_nil]
  refine ⟨e.now, jobs.trans e.jobs, record.trans e.record, e.at_once, fun d member => ?_,
    fun s => ?_⟩
  · rw [running_update jobs held, Function.update_of_ne (apart d member)]
    exact e.shown d member
  · have same : (x.vacate cpu slot p status kind notice).firstOf fresh s = x.firstOf fresh s :=
      firstOf_congr (fun d member => by rw [held, Function.update_of_ne (apart d member)]) s
    rw [starts, same]
    exact e.startOf_eq s

/-- An idle processor gets a process. -/
theorem dispatch (e : Entered m x fresh) (idle : x.isIdleAt cpu = true)
    (found : x.procs[slot]? = some p) :
    Entered m (x.dispatch cpu slot) (fresh ++ [⟨m.now, cpu, .dispatched, p.pid⟩]) := by
  obtain ⟨inside, free⟩ := isIdleAt_iff.1 idle
  have apart : ∀ d ∈ fresh, d.cpu ≠ cpu := fun d member here =>
    e.busy_of_mem member (here ▸ free)
  have jobs : (x.dispatch cpu slot).jobs = x.jobs := by
    rw [Machine.jobs, dispatch_eq x cpu slot found]
    exact map_set_of_eq found rfl
  have held := held_dispatch found inside
  constructor
  case now => exact (now_dispatch ..).trans e.now
  case jobs => exact jobs.trans e.jobs
  case record =>
    rw [dispatch_eq x cpu slot found, ← List.append_assoc, ← e.record, ← e.now]
    exact Trace.ofKind_push .dispatched x.trace _
  case at_once =>
    intro d member
    rcases List.mem_append.1 member with early | last
    · exact e.at_once d early
    · rw [List.mem_singleton.1 last]
  case shown =>
    intro d member
    rw [running_update jobs held, Option.bind_some, pid_of_getElem? found]
    rcases List.mem_append.1 member with early | last
    · rw [Function.update_of_ne (apart d early)]
      exact e.shown d early
    · rw [List.mem_singleton.1 last, Function.update_self]
  case startOf_eq =>
    intro s
    have early : (x.dispatch cpu slot).firstOf fresh s = x.firstOf fresh s :=
      firstOf_congr (fun d member => by rw [held, Function.update_of_ne (apart d member)]) s
    rw [startOf_dispatch found]
    unfold firstOf at early ⊢
    rw [List.find?_append, early, Option.map_or, ← Option.or_assoc]
    change _ = (((m.startOf s).or ((x.firstOf fresh s).map (·.tick))).or _)
    rw [← e.startOf_eq, held, List.find?_singleton, Function.update_self]
    by_cases here : s = slot
    · subst here
      rw [Function.update_self, e.now]
      simp
    · rw [Function.update_of_ne here]
      simp [Ne.symm here]

/-! The phases of a tick. -/

theorem occupyThese (e : Entered m x fresh) (h : Consistent x) (cpus : List Nat) :
    ∃ fresh', Entered m (x.occupyThese cpus) fresh' := by
  refine occupyThese_induction (P := fun _ x y => Consistent x →
    ∀ fresh, Entered m x fresh → ∃ fresh', Entered m y fresh') ?_ ?_ ?_ ?_ cpus x h fresh e
  · exact fun _ _ fresh e => ⟨fresh, e⟩
  · exact fun _ _ _ _ ih h fresh e => ih h fresh e
  · exact fun _ _ _ _ _ _ fresh e => ⟨fresh, e.choose⟩
  · intro cpu rest x slot idle chosen ih h fresh e
    obtain ⟨p, found, -⟩ := pending_of_choose h chosen
    have got : Entered m (x.choose.2.dispatch cpu slot) _ := e.choose.dispatch idle found
    exact ih (h.moves (moves_assign h idle chosen)) _ got

theorem endSlices (e : Entered m x []) (h : Consistent x) (quantum : Nat) :
    Entered m (x.endSlices quantum) [] := by
  have round : Consistent (x.endSlices quantum) ∧ Entered m (x.endSlices quantum) [] := by
    refine atEachCpu_induction (P := fun _ y => Consistent y ∧ Entered m y []) ⟨h, e⟩ ?_
    rintro cpu y - ⟨hy, e⟩
    refine ⟨hy.moves (moves_endSliceAt hy quantum cpu), ?_⟩
    rcases endSliceAt_cases quantum cpu y with ⟨-, same⟩ | ⟨slot, p, -, holds, found, -, ended⟩
    · rw [same]
      exact e
    · rw [ended]
      exact (e.vacate holds found (by simp) (by simp) _).sendToQueue slot
  exact round.2

end Entered

theorem entered_enqueued (m : Machine) : Entered m m.enqueued [] :=
  (Entered.enrolled m).congr (foldl_sendToQueue_keeps procs_sendToQueue _ _)
    (foldl_sendToQueue_keeps held_sendToQueue _ _) (foldl_sendToQueue_keeps trace_sendToQueue _ _)
    (foldl_sendToQueue_keeps now_sendToQueue _ _)

/-- A process that preempts is not evicted in the same tick. -/
theorem Contest.entered_next (c : Contest m x) (preempts : x.preemption? = some (slot, p, cpu))
    (e : Entered m x fresh) (firm : ∀ d ∈ fresh, x.Firm d.cpu) :
    Entered m ((x.evict cpu p.pid).dispatch cpu slot)
      (fresh ++ [⟨m.now, cpu, .dispatched, p.pid⟩]) := by
  obtain ⟨-, idle, found', -⟩ := moves_evict c.matching preempts p.pid
  obtain ⟨found, -, -, -, free | ⟨victim, v, holds, at_slot, -⟩⟩ := preemption?_eq_some preempts
  · rw [evict_of_idle p.pid free] at idle found' ⊢
    exact e.dispatch idle found'
  · rw [evict_of_held p.pid holds at_slot] at idle found' ⊢
    have apart : ∀ d ∈ fresh, d.cpu ≠ cpu := fun d member => ne_of_firm preempts (firm d member)
    exact (e.vacate holds at_slot apart (by simp) _).dispatch idle found'

theorem Contest.entered_preemptAtMost (c : Contest m x) (e : Entered m x fresh)
    (firm : ∀ d ∈ fresh, x.Firm d.cpu) (n : Nat) :
    ∃ fresh', Entered m (preemptAtMost n x) fresh' := by
  induction n generalizing x fresh with
  | zero => exact ⟨fresh, e⟩
  | succ n ih =>
    unfold preemptAtMost
    cases preempts : x.preemption? with
    | none => exact ⟨fresh, e⟩
    | some round =>
      obtain ⟨slot, p, cpu⟩ := round
      refine ih (c.next preempts) (c.entered_next preempts e firm) fun d member => ?_
      rcases List.mem_append.1 member with early | last
      · exact (c.firm_of_firm preempts d.cpu (firm d early)).1
      · rw [List.mem_singleton.1 last]
        exact c.firm_next preempts

section Tick
variable (rest : AtRest m) (steady : m.policy = .srtf → Converged m)
include rest steady

theorem AtRest.entered_rescheduled : ∃ fresh, Entered m m.rescheduled fresh := by
  have enqueued := entered_enqueued m
  rw [rescheduled_eq]
  cases policy : m.policy with
  | roundRobin quantum queue => exact ⟨[], enqueued.endSlices rest.consistent_enqueued quantum⟩
  | srtf =>
    have no_queue : m.policy.queue? = none := by rw [policy]; rfl
    rw [enqueued_eq_enrolled no_queue]
    have contest := Contest.start rest (steady policy) no_queue
    exact contest.entered_preemptAtMost (.enrolled m) (by simp) _
  | fcfs | sjf => exact ⟨[], enqueued⟩

theorem AtRest.entered_occupied : ∃ fresh, Entered m m.occupied fresh := by
  obtain ⟨fresh, e⟩ := rest.entered_rescheduled steady
  exact e.occupyThese rest.consistent_rescheduled _

omit steady in
theorem AtRest.startOf_step : m.step.startOf = m.occupied.startOf := by
  refine startOf_eq_of_map_eq ?_
  rw [rest.procs_step, List.map_map]
  exact List.map_congr_left fun p _ => p.start_pass m.now

end Tick

/-! Runs. -/

/-- The dispatches in the first `n` ticks of a run that gave a processor to the process of a slot,
as the row of their tick shows. -/
def dispatchesOf (start : Machine) (n slot : Nat) : List Event :=
  ((start.steps n).trace.ofKind .dispatched).filter fun d =>
    decide ((start.steps d.tick).occupied.held d.cpu = some slot)

/-- After `n` ticks of a run the row of each dispatch shows the process that it names, and every
process has the start of its first dispatch. -/
structure Dispatched (start : Machine) (n : Nat) : Prop where
  shown : ∀ d ∈ (start.steps n).trace.ofKind .dispatched,
    d.tick < n ∧ (start.steps d.tick).occupied.running d.cpu = some d.pid
  startOf_eq : ∀ slot,
    (start.steps n).startOf slot = (start.dispatchesOf n slot).head?.map (·.tick)

section Run
variable {start : Machine} {n : Nat} (rest : AtRest start) (zero : start.now = 0)
include rest

theorem AtRest.ofKind_dispatched_succ (e : Entered (start.steps n) (start.steps n).occupied fresh) :
    (start.steps (n + 1)).trace.ofKind .dispatched =
      (start.steps n).trace.ofKind .dispatched ++ fresh := by
  rw [steps_succ, ← e.record]
  exact (rest.steps n).grows_occupied.ofKind_eq fun d later => by simp [later.2]

include zero

theorem AtRest.dispatchesOf_succ (e : Entered (start.steps n) (start.steps n).occupied fresh)
    (slot : Nat) : start.dispatchesOf (n + 1) slot = start.dispatchesOf n slot ++
      fresh.filter fun d => decide ((start.steps n).occupied.held d.cpu = some slot) := by
  rw [dispatchesOf, rest.ofKind_dispatched_succ e, List.filter_append, dispatchesOf]
  congr 1
  refine List.filter_congr fun d member => ?_
  rw [e.at_once d member, rest.now_steps, zero, Nat.zero_add]

theorem Dispatched.step (dispatched : Dispatched start n)
    (steady : (start.steps n).policy = .srtf → Converged (start.steps n)) :
    Dispatched start (n + 1) := by
  obtain ⟨fresh, e⟩ := (rest.steps n).entered_occupied steady
  have now : (start.steps n).now = n := by rw [rest.now_steps, zero, Nat.zero_add]
  constructor
  case shown =>
    intro d member
    rw [rest.ofKind_dispatched_succ e] at member
    rcases List.mem_append.1 member with early | late
    · exact (dispatched.shown d early).imp_left Nat.lt_succ_of_lt
    · rw [e.at_once d late, now]
      exact ⟨n.lt_succ_self, e.shown d late⟩
  case startOf_eq =>
    intro slot
    rw [steps_succ, (rest.steps n).startOf_step, e.startOf_eq, dispatched.startOf_eq,
      rest.dispatchesOf_succ zero e, List.head?_append, Option.map_or, List.head?_filter]
    rfl

theorem AtRest.dispatched (blank : start.trace = #[])
    (fresh : ∀ p ∈ start.procs, p = p.toJob.toRecord)
    (steady : start.policy = .srtf → Converged start) (n : Nat) : Dispatched start n := by
  induction n with
  | zero =>
    have none_yet : (start.steps 0).trace.ofKind .dispatched = [] := by
      rw [Trace.ofKind, Machine.steps, blank]
      rfl
    refine ⟨by simp [none_yet], fun slot => ?_⟩
    rw [dispatchesOf, none_yet, Machine.steps, startOf]
    cases found : start.procs[slot]? with
    | none => rfl
    | some p =>
      rw [fresh p (List.mem_of_getElem? found)]
      rfl
  | succ n ih =>
    refine ih.step rest zero fun shortest => ?_
    have srtf : start.policy = .srtf := by
      refine Policy.eq_srtf_of_algorithm_eq ?_
      rw [← rest.algorithm_steps n, shortest]
      rfl
    exact (steady srtf).steps rest srtf n

end Run

end CpuScheduling.Machine
