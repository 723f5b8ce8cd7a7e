import CpuScheduling.Proofs.Least
import CpuScheduling.Proofs.WholeRuns
/-!
The shortest job next. Shortest job first dispatches, of all that have arrived and have not been
dispatched before, the one of least burst; between equal bursts the one of greater priority, then
the earlier arrival, then the smaller place. That is so at each filling of a tick, where those
dispatched before in the same tick are out, and so at every dispatch of a run.
-/
namespace CpuScheduling

/-- The order in which shortest job first prefers jobs, with their places. -/
def ShorterFirst (a b : Job × Nat) : Prop :=
  a.1.burst < b.1.burst ∨ a.1.burst = b.1.burst ∧
    (b.1.priority < a.1.priority ∨ a.1.priority = b.1.priority ∧
      (a.1.arrival < b.1.arrival ∨ a.1.arrival = b.1.arrival ∧ a.2 < b.2))

theorem shorterFirst_of_precedes {p q : ProcessRecord} {slot other : Nat} (apart : other ≠ slot)
    (least : Selection.precedes (·.burst) q p = false)
    (earliest : other < slot → Selection.precedes (·.burst) p q = true) :
    ShorterFirst (p.toJob, slot) (q.toJob, other) := by
  simp only [ShorterFirst, Selection.precedes, Selection.breaksTie, Bool.or_eq_false_iff,
    Bool.and_eq_false_iff, Bool.or_eq_true, Bool.and_eq_true, decide_eq_true_eq,
    decide_eq_false_iff_not, beq_iff_eq, beq_eq_false_iff_ne] at least earliest ⊢
  omega

namespace Machine
variable {m : Machine} {cpu slot other : Nat} {cpus : List Nat} {job rival : Job}

/-! One choice, and a filling. -/

theorem shorterFirst_of_choose (sjf : m.policy = .sjf) (chosen : m.choose.1 = some slot)
    (known : m.jobs[slot]? = some job) (known' : m.jobs[other]? = some rival)
    (waiting : m.status? other = some .waiting) (arrived : rival.arrival ≤ m.now)
    (apart : other ≠ slot) : ShorterFirst (job, slot) (rival, other) := by
  have scan : Selection.bestWaiting? (·.burst) m.procs m.now = some slot := by
    rw [← chosen, choose, sjf]
    rfl
  obtain ⟨p, first⟩ := (Selection.strictWeak_precedes (·.burst)).isFirstLeast scan
  obtain ⟨q, found, stands⟩ := status?_eq_some.1 waiting
  cases known.symm.trans (job_of_getElem? first.found)
  cases known'.symm.trans (job_of_getElem? found)
  have fits : (decide (q.status = .waiting) && q.arrivedBy m.now) = true := by
    simp [stands, ProcessRecord.arrivedBy, arrived]
  exact shorterFirst_of_precedes apart (first.least other q found fits)
    (first.earliest other q found fits)

theorem shorterFirst_of_filled (h : Consistent m) (sjf : m.policy = .sjf) (nodup : cpus.Nodup)
    {before after : List (Nat × Nat)}
    (filling : filled cpus m (m.occupyThese cpus) = before ++ (cpu, slot) :: after)
    (known : m.jobs[slot]? = some job) (known' : m.jobs[other]? = some rival)
    (waiting : m.status? other = some .waiting) (arrived : rival.arrival ≤ m.now)
    (apart : other ≠ slot) (left : other ∉ before.map (·.2)) :
    ShorterFirst (job, slot) (rival, other) := by
  refine filling_induction
    (P := fun fills x _ => ∀ before, fills = before ++ (cpu, slot) :: after → x.policy = .sjf →
      x.jobs = m.jobs → x.now = m.now → x.status? other = some .waiting →
      other ∉ before.map (·.2) → ShorterFirst (job, slot) (rival, other))
    ?_ ?_ ?_ h nodup before filling sjf rfl rfl waiting left
  · intro x before filling
    cases before <;> cases filling
  · intro x _ before filling
    cases before <;> cases filling
  · intro x y c s fills hx chosen assigned ih before filling sjf same now waiting left
    cases before with
    | nil =>
      cases filling
      exact shorterFirst_of_choose sjf chosen (same ▸ known) (same ▸ known') waiting
        (now ▸ arrived) apart
    | cons fill before =>
      obtain ⟨rfl, later⟩ := List.cons.inj filling
      rw [List.map_cons, List.mem_cons, not_or] at left
      obtain ⟨p, found, -⟩ := pending_of_choose hx chosen
      have found' : x.choose.2.procs[s]? = some p := found
      have unchosen : x.choose.2 = x := choose_of_queue?_eq_none (by rw [sjf]; rfl)
      refine ih before later ?_ ?_ (assigned.now_eq.trans now) ?_ left.2
      · rw [policy_dispatch, unchosen, sjf]
      · rw [jobs_eq_of_accounts_eq assigned.accounts_eq, same]
      · rw [status?_dispatch found', Function.update_of_ne left.1]
        exact waiting

/-! One tick. -/

theorem AtRest.arrival_le_of_fill (rest : AtRest m) (member : (cpu, slot) ∈ m.fills)
    (known : m.jobs[slot]? = some job) : job.arrival ≤ m.now := by
  have occupied := rest.consistent_occupied
  obtain ⟨r, found, running⟩ := occupied.slot_lt_of_held (held_of_mem_fills member)
  have same := job_of_getElem? found
  rw [rest.jobs_occupied] at same
  cases known.symm.trans same
  exact (occupied.arrived_of_running found running).trans (Nat.le_of_eq rest.now_occupied)

theorem AtRest.shorterFirst_of_fill (rest : AtRest m) (sjf : m.policy = .sjf)
    {before after : List (Nat × Nat)} (fills : m.fills = before ++ (cpu, slot) :: after)
    (known : m.jobs[slot]? = some job) (known' : m.jobs[other]? = some rival)
    (waiting : m.status? other = some .waiting) (arrived : rival.arrival ≤ m.now)
    (apart : other ≠ slot) (left : other ∉ before.map (·.2)) :
    ShorterFirst (job, slot) (rival, other) := by
  have unmarked : m.policy.algorithm.marksReady = false := by rw [sjf]; rfl
  have same : m.rescheduled.jobs = m.jobs := by
    rw [jobs, procs_rescheduled_of_unmarked unmarked, jobs]
  refine shorterFirst_of_filled rest.consistent_rescheduled ?_ List.nodup_range fills
    (same ▸ known) (same ▸ known') ?_ ?_ apart left
  · rw [rescheduled_of_unmarked unmarked]
    exact sjf
  · rwa [status?_rescheduled_of_unmarked unmarked]
  · rwa [now_rescheduled_of_unmarked unmarked]

theorem exists_fill_of_dispatches {fills : List (Nat × Nat)} {before after : List Event} {d : Event}
    (split : m.dispatches fills = before ++ d :: after) :
    ∃ filled cpu slot later job, fills = filled ++ (cpu, slot) :: later ∧
      m.dispatches filled = before ∧ m.jobs[slot]? = some job ∧
        d = ⟨m.now, cpu, .dispatched, job.pid⟩ := by
  obtain ⟨first, last, rfl, sooner, rest⟩ := List.filterMap_eq_append_iff.1 split
  obtain ⟨skipped, ⟨cpu, slot⟩, later, rfl, nothing, here, -⟩ := List.filterMap_eq_cons_iff.1 rest
  obtain ⟨job, known, rfl⟩ := Option.map_eq_some_iff.1 here
  refine ⟨first ++ skipped, cpu, slot, later, job, (List.append_assoc ..).symm, ?_, known, rfl⟩
  rw [dispatches, List.filterMap_append, sooner, List.filterMap_eq_nil_iff.2 nothing,
    List.append_nil]

/-! Runs. -/

/-- The slot of the process that a dispatch of a run gave its processor to, as the row of its tick
shows. -/
def slotOf (start : Machine) (d : Event) : Option Nat := (start.steps d.tick).occupied.held d.cpu

/-- A dispatch of a run, after some others, gave its processor to a process that had arrived and
that shortest job first prefers to all others that had arrived and were not dispatched. -/
def Picked (start : Machine) (before : List Event) (d : Event) : Prop :=
  ∃ slot job, start.slotOf d = some slot ∧ start.jobs[slot]? = some job ∧ job.pid = d.pid ∧
    job.arrival ≤ d.tick ∧ ∀ other rival, other ≠ slot → start.jobs[other]? = some rival →
      rival.arrival ≤ d.tick → (∀ e ∈ before, start.slotOf e ≠ some other) →
        ShorterFirst (job, slot) (rival, other)

/-- Each of some dispatches, in their order, went to the process to prefer. -/
def PicksShortest (start : Machine) (dispatches : List Event) : Prop :=
  ∀ before d after, dispatches = before ++ d :: after → start.Picked before d

theorem PicksShortest.append {start : Machine} {dispatches more : List Event}
    (picks : start.PicksShortest dispatches)
    (later : ∀ before d after, more = before ++ d :: after →
      start.Picked (dispatches ++ before) d) :
    start.PicksShortest (dispatches ++ more) := by
  intro before d after split
  rcases List.append_eq_append_iff.1 split with ⟨middle, rfl, rest⟩ | ⟨middle, rfl, rest⟩
  · exact later middle d after rest
  · cases middle with
    | nil =>
      simpa only [List.append_nil] using later [] d after rest.symm
    | cons e middle =>
      obtain ⟨rfl, -⟩ := List.cons.inj rest
      exact picks before d middle rfl

theorem Course.waiting {start : Machine} {n : Nat} (course : Course start n slot)
    (undispatched : start.dispatchesOf n slot = []) :
    (start.steps n).status? slot = some .waiting := by
  cases course with
  | pending job pending =>
    obtain ⟨r, found, -, waiting, -⟩ := pending
    exact status?_eq_some.2 ⟨r, found, waiting⟩
  | placed plan at_slot placed once => cases undispatched.symm.trans once

section Run
variable {start : Machine} (o : Outset start) {n : Nat}
include o

theorem Outset.slotOf_fill (member : (cpu, slot) ∈ (start.steps n).fills) (pid : Int) :
    start.slotOf ⟨(start.steps n).now, cpu, .dispatched, pid⟩ = some slot := by
  rw [slotOf, o.now_steps]
  exact held_of_mem_fills member

variable (sjf : start.policy = .sjf)
include sjf

/-- Who had arrived by a dispatch of a tick, and was dispatched neither in earlier ticks nor before
it in this one, still waited for the choice. -/
theorem Outset.picked {before after : List Event} {d : Event}
    (split : (start.steps n).dispatches (start.steps n).fills = before ++ d :: after) :
    start.Picked ((start.steps n).trace.ofKind .dispatched ++ before) d := by
  have rest := o.toAtRest.steps n
  have jobs := o.toAtRest.jobs_steps n
  have sjf' : (start.steps n).policy = .sjf :=
    (o.toAtRest.policy_steps_eq (by rw [sjf]; rfl) n).trans sjf
  obtain ⟨filled, cpu, slot, later, job, fills, sooner, known, rfl⟩ :=
    exists_fill_of_dispatches split
  have member : (cpu, slot) ∈ (start.steps n).fills := by
    rw [fills]
    exact List.mem_append_right _ List.mem_cons_self
  refine ⟨slot, job, o.slotOf_fill member job.pid, jobs ▸ known, rfl,
    rest.arrival_le_of_fill member known, fun other rival apart known' arrived undispatched => ?_⟩
  have inside : other < start.procs.length := by
    have length : start.jobs.length = start.procs.length := List.length_map _
    exact length ▸ (List.getElem?_eq_some_iff.1 known').1
  have none_yet : start.dispatchesOf n other = [] := by
    refine List.filter_eq_nil_iff.2 fun e early holds => ?_
    exact undispatched e (List.mem_append_left _ early) (of_decide_eq_true holds)
  have waiting := (o.course (by rw [sjf]; rfl) inside n).waiting none_yet
  have left : other ∉ filled.map (·.2) := by
    intro served
    obtain ⟨⟨c, s⟩, early, rfl⟩ := List.mem_map.1 served
    have fill : (c, s) ∈ (start.steps n).fills := by
      rw [fills]
      exact List.mem_append_left _ early
    have dispatch : ⟨(start.steps n).now, c, .dispatched, rival.pid⟩ ∈ before := by
      rw [← sooner]
      exact mem_dispatches.2 ⟨c, s, rival, early, jobs.symm ▸ known', rfl⟩
    exact undispatched _ (List.mem_append_right _ dispatch) (o.slotOf_fill fill rival.pid)
  exact rest.shorterFirst_of_fill sjf' fills known (jobs.symm ▸ known') waiting arrived apart left

theorem Outset.picksShortest (n : Nat) :
    start.PicksShortest ((start.steps n).trace.ofKind .dispatched) := by
  have unmarked : start.policy.algorithm.marksReady = false := by rw [sjf]; rfl
  induction n with
  | zero =>
    intro before d after split
    rw [Machine.steps, Trace.ofKind, o.blank] at split
    cases before <;> cases split
  | succ n ih =>
    have unmarked' := (o.toAtRest.algorithm_steps n).symm ▸ unmarked
    rw [o.toAtRest.ofKind_dispatched_succ ((o.toAtRest.steps n).entered_fills unmarked')]
    exact ih.append fun _ _ _ => o.picked sjf

end Run

/-- The machine that a run leaves is the one of its last tick, but for the journal. -/
theorem machine_simulate (d : Discipline) (s : Scenario) :
    (simulate d s).machine =
      ((begun d s).steps (simulate d s).totalTicks).conclude s.bound := by
  obtain ⟨k, -, outcome, -⟩ := simulate_eq d s
  have ended : (simulate d s).machine = ((begun d s).steps k).conclude s.bound :=
    congrArg (·.machine) outcome
  have ticks : (simulate d s).totalTicks = k := by
    rw [Outcome.totalTicks, ended]
    exact ((atRest_begun d s).now_steps k).trans (Nat.zero_add k)
  rw [ticks, ended]

/-- What holds of all records after any number of ticks holds of those that a run leaves. -/
theorem forall_procs_simulate {d : Discipline} {s : Scenario} {P : ProcessRecord → Prop}
    (each : ∀ n (slot : Nat) p, ((begun d s).steps n).procs[slot]? = some p → P p) :
    ∀ p ∈ (simulate d s).machine.procs, P p := by
  rw [machine_simulate]
  intro p member
  obtain ⟨slot, found⟩ := List.mem_iff_getElem?.1 member
  exact each _ slot p found

/-- Shortest job first, for any limit: a run ends with the records, the trace and the timeline of
its last tick; at each tick every process that has started runs whole from its one dispatch on, and
each dispatch went to the process of least burst among those that had arrived and were still to be
dispatched, ties broken by priority, arrival and place. -/
theorem shortest_first_schedule (s : Scenario) (bursts : ∀ job ∈ s.jobs, 0 < job.burst)
    (quantum : Nat) :
    let start := begun ⟨.sjf, quantum⟩ s
    let o := simulate ⟨.sjf, quantum⟩ s
    (o.machine.procs = (start.steps o.totalTicks).procs ∧
      o.machine.trace = (start.steps o.totalTicks).trace ∧
      o.machine.timeline = (start.steps o.totalTicks).timeline) ∧
    ∀ n,
      (∀ slot p, (start.steps n).procs[slot]? = some p → p.start.isSome = true →
        ∃ d, RunsWhole start n slot p d) ∧
      start.PicksShortest ((start.steps n).trace.ofKind .dispatched) := by
  intro start o
  have begins : Outset start := outset_begun ⟨.sjf, quantum⟩ s bursts
  refine ⟨?_, fun n => ⟨fun slot p found started => ?_, begins.picksShortest rfl n⟩⟩
  · have ended : o.machine = (start.steps o.totalTicks).conclude s.bound := machine_simulate _ s
    rw [ended]
    exact ⟨rfl, rfl, rfl⟩
  · exact begins.runsWhole found (charted_begun ⟨.sjf, quantum⟩ s) rfl started

/-- The shorter one of two that arrive together comes first though its place is behind; the third,
which arrives while both processors are taken, runs whole when the first of them is free. -/
theorem shortest_first_schedule_tied :
    let start := begun ⟨.sjf, 2⟩ tiedArrivals
    let dispatches := (start.steps 3).trace.ofKind .dispatched
    (∀ job ∈ tiedArrivals.jobs, 0 < job.burst) ∧
      (∃ p d, (start.steps 3).procs[2]? = some p ∧ RunsWhole start 3 2 p d ∧
        p.status = .completed ∧ p.finish = some (d.tick + p.burst)) ∧
      start.PicksShortest dispatches ∧ dispatches.map (·.pid) = [2, 1, 3] := by
  intro start dispatches
  have bursts : ∀ job ∈ tiedArrivals.jobs, 0 < job.burst := by decide
  obtain ⟨whole, picks⟩ := (shortest_first_schedule tiedArrivals bursts 2).2 3
  obtain ⟨p, found, started, done⟩ : ∃ p, (start.steps 3).procs[2]? = some p ∧
      p.start.isSome = true ∧ p.status = .completed := by decide +kernel
  obtain ⟨d, runs⟩ := whole 2 p found started
  exact ⟨bursts, ⟨p, d, found, runs, done, (runs.completed done).1⟩, picks, by decide +kernel⟩

end Machine
end CpuScheduling
