import CpuScheduling.Proofs.Lifecycle
/-!
Truncation. A run is recorded once and for all: later ticks add to its trace and its timeline and
leave what stands there, and the times in the record of a process are written once. So a smaller
bound cuts a run short and changes nothing before the cut.
-/
namespace CpuScheduling

/-- The same processors and jobs under another explicit bound, or under none. -/
def Scenario.limited (s : Scenario) (limit : Option Nat) : Scenario := { s with limit }

/-- A record and what becomes of it: the job and the times that are written stay as they are, and
after the finish all of it stays. -/
structure ProcessRecord.ContinuedBy (p q : ProcessRecord) : Prop where
  job : q.toJob = p.toJob
  start : ∀ t, p.start = some t → q.start = some t
  response : ∀ t, p.response = some t → q.response = some t
  finish : ∀ t, p.finish = some t → q.finish = some t
  final : p.status = .completed → q = p

namespace Machine
variable {start : Machine} {k k' : Nat}

/-- A machine and a later one: the trace of the first begins that of the second, its rows stand in
the timeline of the second, and so do its records in the table, as far as they are written. -/
structure ContinuedBy (x y : Machine) : Prop where
  trace : x.trace.toList <+: y.trace.toList
  rows : ∀ tick row, x.timeline.row tick = some row → y.timeline.row tick = some row
  records : ∀ (slot : Nat) p, x.procs[slot]? = some p →
    ∃ q, y.procs[slot]? = some q ∧ p.ContinuedBy q

/-- A row that a run has written is the occupancy of its tick. -/
theorem Charted.row_eq (charted : Charted start) (rest : AtRest start) (zero : start.now = 0)
    {tick : Nat} {row : List Cell} (recorded : (start.steps k).timeline.row tick = some row) :
    tick < k ∧ row = (start.steps tick).occupied.occupancy := by
  have early : tick < k := by
    have inside := Timeline.lt_length_of_row_eq recorded
    rwa [(charted.steps rest k).length, rest.now_steps, zero, Nat.zero_add] at inside
  have shown := charted.row_steps rest early
  rw [zero, Nat.zero_add, recorded] at shown
  exact ⟨early, Option.some.inj shown⟩

theorem Outset.record_continuedBy (o : Outset start) (upto : k ≤ k') {slot : Nat}
    {p : ProcessRecord} (found : (start.steps k).procs[slot]? = some p) :
    ∃ q, (start.steps k').procs[slot]? = some q ∧ p.ContinuedBy q := by
  have rest := o.toAtRest
  obtain ⟨more, rfl⟩ := Nat.exists_eq_add_of_le upto
  obtain ⟨q, found', job⟩ := rest.exists_record found (k + more)
  have started : ∀ t, p.start = some t → q.start = some t := fun t written =>
    (o.start_steps found (by rw [written]; rfl) found').trans written
  have final : p.status = .completed → q = p := by
    intro done
    have kept := (rest.steps k).getElem?_steps_of_completed found done more
    rw [← steps_add, found'] at kept
    exact Option.some.inj kept
  refine ⟨q, found', job, started, fun t written => ?_, fun t written => ?_, final⟩
  · rw [o.response_eq found] at written
    obtain ⟨first, begins, -⟩ := Option.map_eq_some_iff.1 written
    have arrival : q.arrival = p.arrival := congrArg (·.arrival) job
    rw [o.response_eq found', started first begins, arrival, ← begins, written]
  · -- a finish is written by the last unit of work only
    have balanced := o.balanced.steps rest k
    have member := List.mem_of_getElem? found
    have done : p.remaining = 0 :=
      (balanced.isSome_finish_iff member).1 (by rw [written]; rfl)
    rw [final ((balanced.completed_iff member).2 done), written]

/-- What a run has recorded after some ticks stands in every later machine of it. -/
theorem Outset.continuedBy (o : Outset start) (charted : Charted start) (upto : k ≤ k') :
    (start.steps k).ContinuedBy (start.steps k') := by
  have rest := o.toAtRest
  refine ⟨?_, fun tick row recorded => ?_, fun slot p found => o.record_continuedBy upto found⟩
  · obtain ⟨later, grown, -⟩ := rest.grows_steps upto
    exact ⟨later, grown.symm⟩
  · obtain ⟨early, rfl⟩ := charted.row_eq rest o.zero recorded
    have shown := charted.row_steps rest (Nat.lt_of_lt_of_le early upto)
    rwa [o.zero, Nat.zero_add] at shown

/-- Of two simulations that differ in their bounds, the one with the smaller bound stops there,
unless it stops with the other. -/
theorem simulate_limited (d : Discipline) (s : Scenario) {limit limit' : Option Nat}
    (tighter : (s.limited limit).bound ≤ (s.limited limit').bound) :
    ∃ k k', k = min (s.limited limit).bound k' ∧
      (simulate d (s.limited limit)).machine =
        ((begun d s).steps k).conclude (s.limited limit).bound ∧
      (simulate d (s.limited limit')).machine =
        ((begun d s).steps k').conclude (s.limited limit').bound := by
  obtain ⟨k, upto, outcome, busy, stop⟩ := simulate_eq d (s.limited limit)
  obtain ⟨k', -, outcome', busy', stop'⟩ := simulate_eq d (s.limited limit')
  exact ⟨k, k', stop_eq_min tighter upto busy busy' stop stop', congrArg (·.machine) outcome,
    congrArg (·.machine) outcome'⟩

/-- A smaller bound only truncates a simulation: it takes as many ticks as the longer one or as its
bound allows, has a row for each of them, and all that it has recorded stands in the longer one. -/
theorem bound_truncates (d : Discipline) (s : Scenario) (bursts : ∀ job ∈ s.jobs, 0 < job.burst)
    {limit limit' : Option Nat} (tighter : (s.limited limit).bound ≤ (s.limited limit').bound) :
    let o := simulate d (s.limited limit)
    let o' := simulate d (s.limited limit')
    o.totalTicks = min (s.limited limit).bound o'.totalTicks ∧
      o.machine.timeline.length = o.totalTicks ∧ o.machine.ContinuedBy o'.machine := by
  intro o o'
  obtain ⟨k, k', stops, machine, machine'⟩ := simulate_limited d s tighter
  have begins : Outset (begun d s) := outset_begun d s bursts
  have charted : Charted (begun d s) := charted_begun d s
  have continued := begins.continuedBy charted (stops.trans_le (Nat.min_le_right _ k'))
  have ended : o.machine = _ := machine
  have ended' : o'.machine = _ := machine'
  rw [Outcome.totalTicks, Outcome.totalTicks, ended, ended']
  refine ⟨?_, (charted.steps begins.toAtRest k).length, continued.trace, continued.rows,
    continued.records⟩
  show ((begun d s).steps k).now = min _ ((begun d s).steps k').now
  rw [begins.now_steps, begins.now_steps]
  exact stops

/-- Cut off after the eviction, the first process has its start and response already, and the second
its whole record. -/
theorem bound_truncates_evicted :
    let o := simulate ⟨.srtf, 2⟩ (shorterArrival.limited (some 2))
    let o' := simulate ⟨.srtf, 2⟩ (shorterArrival.limited none)
    (∀ job ∈ shorterArrival.jobs, 0 < job.burst) ∧
      (shorterArrival.limited (some 2)).bound ≤ (shorterArrival.limited none).bound ∧
      o.totalTicks = 2 ∧ o'.totalTicks = 4 ∧ o.machine.ContinuedBy o'.machine ∧
      o.machine.procs.map (·.status) = [.waiting, .completed] ∧
      o.machine.procs.map (·.start) = [some 0, some 1] ∧
      o.machine.timeline.rows.toList = [[some 1], [some 2]] ∧ o.machine.trace.size = 4 := by
  intro o o'
  have bursts : ∀ job ∈ shorterArrival.jobs, 0 < job.burst := by decide
  have tighter : (shorterArrival.limited (some 2)).bound ≤ (shorterArrival.limited none).bound := by
    decide
  obtain ⟨ticks, -, continued⟩ := bound_truncates ⟨.srtf, 2⟩ shorterArrival bursts tighter
  have whole : o'.totalTicks = 4 := by decide +kernel
  have cut : o.totalTicks = 2 := by rw [ticks, whole]; rfl
  exact ⟨bursts, tighter, cut, whole, continued, by decide +kernel, by decide +kernel,
    by decide +kernel, by decide +kernel⟩

end Machine
end CpuScheduling
