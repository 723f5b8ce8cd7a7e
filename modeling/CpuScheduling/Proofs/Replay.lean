import CpuScheduling.Proofs.Rows
/-!
Replaying the trace. On each processor dispatches alternate with the events that end them, and the
last event up to a tick tells what the processor runs in that tick, as the timeline shows it.
-/
namespace CpuScheduling

/-- Events of one processor that alternate, a dispatch first; what ends a dispatch names the same
process. The cell is the process of a dispatch that has not ended. -/
inductive Alternating : List Event → Cell → Prop
  | nil : Alternating [] none
  | start {events : List Event} {e : Event} : Alternating events none → e.kind = .dispatched →
      Alternating (events ++ [e]) (some e.pid)
  | finish {events : List Event} {e : Event} : Alternating events (some e.pid) →
      e.kind ≠ .dispatched → Alternating (events ++ [e]) none

theorem Alternating.getLast? {events : List Event} {cell : Cell} (h : Alternating events cell) :
    (events.getLast?.bind fun e => if e.kind = .dispatched then some e.pid else none) = cell := by
  cases h with
  | nil => rfl
  | start _ kind => simp [kind]
  | finish _ kind => simp [kind]

namespace Trace

/-- The events on one processor. -/
def onCpu (trace : Trace) (cpu : Nat) : List Event := trace.toList.filter fun e => e.cpu == cpu

/-- The last event on a processor up to a tick. -/
def lastBy (trace : Trace) (tick cpu : Nat) : Option Event :=
  (trace.toList.filter fun e => e.cpu == cpu && decide (e.tick ≤ tick)).getLast?

/-- What a processor runs in a tick, as the last event on it tells: the process of a dispatch. -/
def replay (trace : Trace) (tick cpu : Nat) : Cell :=
  (trace.lastBy tick cpu).bind fun e => if e.kind = .dispatched then some e.pid else none

/-- A trace in the order of ticks, none after `latest`, whose events alternate on each processor and
leave on it what `running` says. -/
structure Tells (trace : Trace) (latest : Nat) (running : Nat → Cell) : Prop where
  sorted : trace.toList.Pairwise fun a b => a.tick ≤ b.tick
  past : ∀ e ∈ trace.toList, e.tick ≤ latest
  alternating : ∀ cpu, Alternating (trace.onCpu cpu) (running cpu)

variable {trace after : Trace} {latest cpu : Nat} {running : Nat → Cell}

theorem onCpu_push (trace : Trace) (e : Event) (cpu : Nat) :
    Trace.onCpu (trace.push e) cpu = trace.onCpu cpu ++ if e.cpu = cpu then [e] else [] := by
  unfold onCpu
  rw [Array.toList_push, List.filter_append]
  congr 1
  by_cases here : e.cpu = cpu <;> simp [here]

theorem Tells.mono (h : Tells trace latest running) {later : Nat} (le : latest ≤ later) :
    Tells trace later running :=
  ⟨h.sorted, fun e member => (h.past e member).trans le, h.alternating⟩

theorem Tells.push (h : Tells trace latest running) {e : Event} (tick : e.tick = latest)
    {cell : Cell} (next : Alternating (trace.onCpu e.cpu ++ [e]) cell) :
    Tells (trace.push e) latest (Function.update running e.cpu cell) := by
  constructor
  case sorted =>
    rw [Array.toList_push, List.pairwise_append]
    refine ⟨h.sorted, List.pairwise_singleton _ _, fun a member b last => ?_⟩
    rw [List.mem_singleton.1 last, tick]
    exact h.past a member
  case past =>
    intro a member
    rw [Array.toList_push] at member
    rcases List.mem_append.1 member with old | last
    · exact h.past a old
    · rw [List.mem_singleton.1 last, tick]
  case alternating =>
    intro cpu
    rw [onCpu_push]
    by_cases here : e.cpu = cpu
    · subst here
      rw [if_pos rfl, Function.update_self]
      exact next
    · rw [if_neg here, List.append_nil, Function.update_of_ne (Ne.symm here)]
      exact h.alternating cpu

theorem Tells.dispatch (h : Tells trace latest running) (free : running cpu = none) (pid : Int) :
    Tells (trace.push ⟨latest, cpu, .dispatched, pid⟩) latest
      (Function.update running cpu (some pid)) := by
  have before : Alternating (trace.onCpu cpu) none := free ▸ h.alternating cpu
  exact h.push rfl (.start before rfl)

theorem Tells.leave (h : Tells trace latest running) {pid : Int} (runs : running cpu = some pid)
    {kind : Event.Kind} (ends : kind ≠ .dispatched) :
    Tells (trace.push ⟨latest, cpu, kind, pid⟩) latest (Function.update running cpu none) := by
  have before : Alternating (trace.onCpu cpu) (some pid) := runs ▸ h.alternating cpu
  exact h.push rfl (.finish before ends)

/-! What is recorded later. -/

/-- A trace that has grown by events of a kind. -/
def Grows (fits : Event → Prop) (before after : Trace) : Prop :=
  ∃ later, after.toList = before.toList ++ later ∧ ∀ e ∈ later, fits e

variable {fits : Event → Prop}

theorem Grows.refl (fits : Event → Prop) (trace : Trace) : Grows fits trace trace :=
  ⟨[], (List.append_nil _).symm, nofun⟩

theorem Grows.push (trace : Trace) {e : Event} (fit : fits e) : Grows fits trace (trace.push e) :=
  ⟨[e], Array.toList_push, fun _ member => List.mem_singleton.1 member ▸ fit⟩

theorem Grows.mono {before : Trace} {wider : Event → Prop} (h : Grows fits before after)
    (le : ∀ e, fits e → wider e) : Grows wider before after := by
  obtain ⟨later, grown, fit⟩ := h
  exact ⟨later, grown, fun e member => le e (fit e member)⟩

theorem Grows.trans {before last : Trace} (h : Grows fits before after)
    (h' : Grows fits after last) : Grows fits before last := by
  obtain ⟨later, grown, fit⟩ := h
  obtain ⟨later', grown', fit'⟩ := h'
  refine ⟨later ++ later', by rw [grown', grown, List.append_assoc], fun e member => ?_⟩
  exact (List.mem_append.1 member).elim (fit e) (fit' e)

/-- Of a kind that is not among the new events there are just the old ones. -/
theorem Grows.ofKind_eq {before : Trace} (h : Grows fits before after) {kind : Event.Kind}
    (other : ∀ e, fits e → e.kind ≠ kind) : after.ofKind kind = before.ofKind kind := by
  obtain ⟨later, grown, fit⟩ := h
  have none_later : later.filter (fun e => decide (e.kind = kind)) = [] :=
    List.filter_eq_nil_iff.2 fun e member => by simpa using other e (fit e member)
  rw [ofKind, grown, List.filter_append, none_later, ofKind, List.append_nil]

/-- What a trace tells of the present stays readable in it as it grows. -/
theorem Tells.replay_eq (h : Tells trace latest running)
    (grows : Grows (latest + 1 ≤ ·.tick) trace after) (cpu : Nat) :
    after.replay latest cpu = running cpu := by
  obtain ⟨later, grown, late⟩ := grows
  have none_later : (later.filter fun e => e.cpu == cpu && decide (e.tick ≤ latest)) = [] := by
    refine List.filter_eq_nil_iff.2 fun e member => ?_
    have beyond := late e member
    simp only [Bool.and_eq_true, decide_eq_true_eq, not_and]
    omega
  have all_before : (trace.toList.filter fun e => e.cpu == cpu && decide (e.tick ≤ latest)) =
      trace.onCpu cpu := by
    refine List.filter_congr fun e member => ?_
    rw [decide_eq_true (h.past e member), Bool.and_true]
  rw [replay, lastBy, grown, List.filter_append, none_later, List.append_nil, all_before]
  exact (h.alternating cpu).getLast?

end Trace

namespace Machine
variable {m m' : Machine} {cpu slot : Nat} {p : ProcessRecord}

/-! One move. -/

theorem running_of_held (holds : m.held cpu = some slot) (found : m.procs[slot]? = some p) :
    m.running cpu = some p.pid := by
  rw [running, holds, Option.bind_some, pid_of_getElem? found]

theorem running_of_free (free : m.held cpu = none) : m.running cpu = none := by
  rw [running, free, Option.bind_none]

theorem running_eq_of_held_eq (jobs : m'.jobs = m.jobs) (held : m'.held = m.held) :
    m'.running = m.running := by
  unfold running
  rw [jobs, held]

theorem running_update {now : Option Nat} (jobs : m'.jobs = m.jobs)
    (held : m'.held = Function.update m.held cpu now) :
    m'.running =
      Function.update m.running cpu (now.bind fun slot => m.jobs[slot]?.map (·.pid)) := by
  funext c
  unfold running
  rw [jobs, held]
  by_cases here : c = cpu
  · subst here
    rw [Function.update_self, Function.update_self]
  · rw [Function.update_of_ne here, Function.update_of_ne here]

/-- A machine whose trace tells what its processors run. -/
def Told (m : Machine) : Prop := m.trace.Tells m.now m.running

theorem Told.move (told : Told m) (step : Move m m') : Told m' := by
  have jobs := jobs_eq_of_accounts_eq step.accounts_eq
  unfold Told
  rw [step.now_eq]
  cases step with
  | @place cpu slot p idle found pending arrived unqueued =>
    obtain ⟨inside, free⟩ := isIdleAt_iff.1 idle
    rw [running_update jobs (held_dispatch found inside), Option.bind_some, pid_of_getElem? found,
      dispatch_eq m cpu slot found]
    exact told.dispatch (running_of_free free) p.pid
  | @displace cpu slot p holds found running status kind cause notice =>
    have ends : kind ≠ .dispatched := by
      rcases cause with ⟨-, rfl⟩ | ⟨-, rfl⟩ <;> exact nofun
    rw [running_update jobs (held_vacate (held_lt holds)), Option.bind_none]
    exact told.leave (running_of_held holds found) ends
  | enqueue ready unqueued =>
    rw [running_eq_of_held_eq jobs (held_sendToQueue ..), trace_sendToQueue]
    exact told
  | dequeue policy => exact told

theorem Told.moves (told : Told m) (steps : Moves m m') : Told m' := by
  induction steps with
  | refl => exact told
  | tail _ last ih => exact ih.move last

theorem Move.grows (step : Move m m') : Trace.Grows (·.tick = m.now) m.trace m'.trace := by
  cases step with
  | place idle found pending arrived unqueued =>
    rw [dispatch_eq m _ _ found]
    exact .push _ rfl
  | displace holds found running cause notice => exact .push _ rfl
  | enqueue ready unqueued =>
    rw [trace_sendToQueue]
    exact .refl _ _
  | dequeue policy => exact .refl _ _

theorem Moves.grows (steps : Moves m m') : Trace.Grows (·.tick = m.now) m.trace m'.trace := by
  induction steps with
  | refl => exact .refl _ _
  | tail before last ih => exact ih.trans (Moves.now_eq before ▸ last.grows)

/-! The work of a tick, whose completions carry the next tick. -/

theorem jobs_workAt (m : Machine) (cpu : Nat) : (workAt cpu m).jobs = m.jobs := by
  cases occupied : m.occupant? cpu with
  | none => rw [workAt_of_vacant occupied]; rfl
  | some entry =>
    obtain ⟨holds, found⟩ := occupant?_eq_some.1 occupied
    rw [jobs, procs_workAt holds found]
    exact map_set_of_eq found (entry.2.toJob_work m.now)

theorem trace_workAt (holds : m.held cpu = some slot) (found : m.procs[slot]? = some p) :
    (workAt cpu m).trace =
      if p.remaining ≤ 1 then m.trace.push ⟨m.now + 1, cpu, .completed, p.pid⟩ else m.trace := by
  rw [workAt_of_held holds found]
  dsimp only
  split <;> rfl

theorem tells_workAt (h : Consistent m) (tells : m.trace.Tells (m.now + 1) m.running) (cpu : Nat) :
    (workAt cpu m).trace.Tells (m.now + 1) (workAt cpu m).running := by
  cases holds : m.held cpu with
  | none =>
    have vacant := workAt_of_vacant (occupant?_eq_none holds)
    have held : (workAt cpu m).held = m.held := by rw [vacant, held_elapse]
    rw [running_eq_of_held_eq (jobs_workAt m cpu) held, vacant]
    exact tells
  | some slot =>
    obtain ⟨p, found, -⟩ := h.slot_lt_of_held holds
    have held := held_workAt holds found
    rw [trace_workAt holds found]
    split
    next last =>
      rw [if_pos last] at held
      rw [running_update (jobs_workAt m cpu) held, Option.bind_none]
      exact tells.leave (running_of_held holds found) nofun
    next more =>
      rw [if_neg more] at held
      rw [running_eq_of_held_eq (jobs_workAt m cpu) held]
      exact tells

theorem grows_workAt (m : Machine) (cpu : Nat) :
    Trace.Grows (fun e => e.tick = m.now + 1 ∧ e.kind = .completed) m.trace
      (workAt cpu m).trace := by
  cases occupied : m.occupant? cpu with
  | none => rw [workAt_of_vacant occupied]; exact .refl _ _
  | some entry =>
    obtain ⟨holds, found⟩ := occupant?_eq_some.1 occupied
    rw [trace_workAt holds found]
    split
    · exact .push _ ⟨rfl, rfl⟩
    · exact .refl _ _

theorem tells_work (h : Consistent m) (told : Told m) :
    m.work.trace.Tells (m.now + 1) m.work.running := by
  have round : Consistent m.work ∧ m.work.now = m.now ∧
      m.work.trace.Tells (m.now + 1) m.work.running := by
    refine atEachCpu_induction (P := fun _ x => Consistent x ∧ x.now = m.now ∧
      x.trace.Tells (m.now + 1) x.running) ⟨h, rfl, told.mono (Nat.le_succ _)⟩ ?_
    rintro cpu x - ⟨hx, now, tells⟩
    refine ⟨hx.workAt cpu, (now_workAt x cpu).trans now, ?_⟩
    rw [← now] at tells ⊢
    exact tells_workAt hx tells cpu
  exact round.2.2

theorem grows_work (m : Machine) :
    Trace.Grows (fun e => e.tick = m.now + 1 ∧ e.kind = .completed) m.trace m.work.trace := by
  have round : m.work.now = m.now ∧
      Trace.Grows (fun e => e.tick = m.now + 1 ∧ e.kind = .completed) m.trace m.work.trace := by
    refine atEachCpu_induction (P := fun _ x => x.now = m.now ∧
      Trace.Grows (fun e => e.tick = m.now + 1 ∧ e.kind = .completed) m.trace x.trace)
      ⟨rfl, .refl _ _⟩ ?_
    rintro cpu x - ⟨now, grows⟩
    exact ⟨(now_workAt x cpu).trans now, grows.trans (now ▸ grows_workAt x cpu)⟩
  exact round.2

/-! One tick. -/

theorem AtRest.told_occupied (h : AtRest m) (told : Told m) : Told m.occupied := by
  have enrolled : Told m.enrolled := by
    have jobs := jobs_eq_of_accounts_eq m.accounts_enrolled
    have same : m.enrolled.running = m.running := running_eq_of_held_eq jobs rfl
    unfold Told
    rw [same]
    exact told
  exact enrolled.moves h.moves_occupied

theorem Told.step (told : Told m) (h : AtRest m) : Told m.step := by
  have jobs : m.aged.jobs = m.occupied.jobs := by
    show (m.occupied.procs.map (·.ageWaiting m.occupied.now)).map (·.toJob) = _
    rw [List.map_map]
    exact List.map_congr_left fun p _ => p.toJob_ageWaiting _
  have same : m.aged.running = m.occupied.running := running_eq_of_held_eq jobs rfl
  have aged : Told m.aged := by
    unfold Told
    rw [same]
    exact h.told_occupied told
  unfold Told
  rw [h.now_step, ← h.now_occupied]
  exact tells_work h.consistent_aged aged

/-- After the row of a tick only completions are recorded, which carry the next tick. -/
theorem AtRest.grows_occupied (h : AtRest m) :
    Trace.Grows (fun e => e.tick = m.now + 1 ∧ e.kind = .completed) m.occupied.trace
      m.step.trace := by
  rw [← h.now_occupied]
  exact grows_work m.aged

theorem AtRest.grows_step (h : AtRest m) : Trace.Grows (m.now ≤ ·.tick) m.trace m.step.trace :=
  (h.moves_occupied.grows.mono fun _ at_once => Nat.le_of_eq at_once.symm).trans
    (h.grows_occupied.mono fun _ late => late.1 ▸ Nat.le_succ _)

/-! Runs. -/

theorem Told.steps (told : Told m) (h : AtRest m) (n : Nat) : Told (m.steps n) := by
  induction n with
  | zero => exact told
  | succ n ih => rw [steps_succ]; exact ih.step (h.steps n)

theorem AtRest.grows_steps (h : AtRest m) {i n : Nat} (upto : i ≤ n) :
    Trace.Grows (m.now + i ≤ ·.tick) (m.steps i).trace (m.steps n).trace := by
  induction n, upto using Nat.le_induction with
  | base => exact .refl _ _
  | succ n upto ih =>
    rw [steps_succ]
    refine ih.trans ((h.steps n).grows_step.mono fun e late => ?_)
    rw [h.now_steps] at late
    exact (Nat.add_le_add_left upto _).trans late

/-- After a run its trace tells what every processor ran in every tick. -/
theorem AtRest.replay_steps (h : AtRest m) (told : Told m) {t n : Nat} (early : t < n) (cpu : Nat) :
    (m.steps n).trace.replay (m.now + t) cpu = (m.steps t).occupied.running cpu := by
  have rest := h.steps t
  have now : (m.steps t).occupied.now = m.now + t := rest.now_occupied.trans (h.now_steps t)
  have tells := rest.told_occupied (told.steps h t)
  have later := h.grows_steps early
  rw [steps_succ] at later
  have grows : Trace.Grows ((m.steps t).occupied.now + 1 ≤ ·.tick) (m.steps t).occupied.trace
      (m.steps n).trace := by
    rw [now]
    refine (rest.grows_occupied.mono fun e next => ?_).trans later
    rw [next.1, h.now_steps, Nat.add_assoc]
  rw [← now]
  exact tells.replay_eq grows cpu

theorem told_boot (s : Scenario) (policy : Policy) : Told (boot s policy) := by
  refine ⟨List.Pairwise.nil, nofun, fun cpu => ?_⟩
  rw [running_of_free (held_boot s policy cpu)]
  exact .nil

/-- The trace of any simulation is in the order of ticks; on each processor dispatches alternate
with what ends them, and a dispatch is left open only for the process that the processor holds in
the end, so for none in a completed run; and in every tick of the simulation each cell of the
timeline shows what the last event on its processor up to that tick tells. -/
theorem trace_replays_timeline (d : Discipline) (s : Scenario) :
    let o := simulate d s
    o.machine.trace.toList.Pairwise (fun a b => a.tick ≤ b.tick) ∧
      (∀ cpu, Alternating (o.machine.trace.onCpu cpu) (o.machine.running cpu)) ∧
      (o.ending = .completed → ∀ cpu, o.machine.running cpu = none) ∧
      ∀ t < o.totalTicks, (∃ row, o.machine.timeline.row t = some row ∧ row.length = s.cpus) ∧
        ∀ cpu, o.occupantAt t cpu = o.machine.trace.replay t cpu := by
  obtain ⟨k, -, outcome, -⟩ := simulate_eq d s
  have rest := atRest_begun d s
  have charted := charted_begun d s
  have told : Told (begun d s) := told_boot s d.policy
  have tells := told.steps rest k
  rw [outcome]
  refine ⟨tells.sorted, tells.alternating, fun ended cpu => ?_, fun t early => ?_⟩
  · refine running_of_free (Option.eq_none_iff_forall_not_mem.2 fun slot holds => ?_)
    obtain ⟨p, found, running⟩ := (rest.steps k).slot_lt_of_held holds
    have done := (rest.steps k).allFinished_iff.1 (ending_eq_completed_iff.1 ended) p
      (List.mem_of_getElem? found)
    rw [running] at done
    cases done
  · have ticks : ((begun d s).steps k).now = k := (rest.now_steps k).trans (Nat.zero_add k)
    replace early : t < k := ticks ▸ early
    have size : ((begun d s).steps t).occupied.cpus.size = s.cpus :=
      ((rest.steps t).size_cpus_occupied.trans (rest.size_cpus_steps t)).trans (size_cpus_begun d s)
    have row := charted.row_steps rest early
    have get := charted.get_steps rest early
    have replay := rest.replay_steps told early
    rw [show (begun d s).now + t = t from Nat.zero_add t] at row get replay
    exact ⟨⟨_, row, (length_occupancy _).trans size⟩, fun cpu => (get cpu).trans (replay cpu).symm⟩

/-- Where a process is evicted, two events of one tick stand between what was shown and what is. -/
theorem trace_replays_timeline_evicted :
    let o := simulate ⟨.srtf, 2⟩ shorterArrival
    (o.machine.trace.onCpu 0).map (fun e => (e.tick, e.kind, e.pid)) =
        [(0, .dispatched, 1), (1, .preempted, 1), (1, .dispatched, 2), (2, .completed, 2),
          (2, .dispatched, 1), (4, .completed, 1)] ∧
      o.ending = .completed ∧ o.machine.running 0 = none ∧ 1 < o.totalTicks ∧
      o.occupantAt 1 0 = o.machine.trace.replay 1 0 ∧ o.machine.trace.replay 1 0 = some 2 := by
  intro o
  have ended : o.ending = .completed := by decide +kernel
  have early : 1 < o.totalTicks := by decide +kernel
  obtain ⟨-, -, closed, cells⟩ := trace_replays_timeline ⟨.srtf, 2⟩ shorterArrival
  exact ⟨by decide +kernel, ended, closed ended 0, early, (cells 1 early).2 0, by decide +kernel⟩

end Machine
end CpuScheduling
