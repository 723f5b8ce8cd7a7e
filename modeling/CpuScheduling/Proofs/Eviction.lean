import CpuScheduling.Proofs.Contest
/-!
Evictions under shortest remaining time, in whole runs. Between two ticks no processor holds a
process that has more work left than a ready one, so evictions happen only in the ticks in which a
shorter process arrives, and there are fewer of them than processes.
-/
namespace CpuScheduling

namespace Machine
variable {m : Machine}

/-- The events of a tick up to its row. -/
structure Rescheduling (m : Machine) (events : List Event) : Prop where
  trace : m.occupied.trace.toList = m.trace.toList ++ events
  answered : Answered (fun e e' => ∃ victim, Replaces m m.occupied victim e e') events
  shown : ∀ e ∈ events, e.kind = .dispatched → m.occupied.running e.cpu = some e.pid
  apart : events.Pairwise Event.Apart

theorem rescheduled_of_srtf (srtf : m.policy = .srtf) : m.rescheduled = m.enrolled.preempt := by
  rw [rescheduled_eq, srtf, enqueued_eq_enrolled (by rw [srtf]; rfl)]

section Tick
variable (rest : AtRest m) (conv : Converged m) (srtf : m.policy = .srtf)
include rest conv srtf

theorem Converged.rescheduled :
    Contest m m.rescheduled ∧ m.rescheduled.preemption? = none ∧
      ∃ events, Resolves m m.enrolled m.rescheduled events := by
  have no_queue : m.policy.queue? = none := by rw [srtf]; rfl
  have start := Contest.start rest conv no_queue
  rw [rescheduled_of_srtf srtf]
  obtain ⟨last, resolves⟩ := start.resolves rest conv m.enrolled.readyCount
  exact ⟨last, preemption?_preempt start.matching, resolves⟩

theorem Converged.events : ∃ events, Rescheduling m events := by
  obtain ⟨last, none_left, events, r⟩ := conv.rescheduled rest srtf
  by_cases busy : ∀ cpu, m.rescheduled.isIdleAt cpu = false
  · have same : m.occupied = m.rescheduled := occupyThese_of_busy _ busy
    exact ⟨events, same ▸ r.trace, same ▸ r.answered, same ▸ r.shown, r.apart⟩
  -- with a processor idle nobody was evicted, and others are filled than those before
  have unevicted : ∀ e ∈ events, e.kind ≠ .preempted := fun e member kind =>
    busy (r.evicting e member kind)
  have working : ∀ e ∈ events, m.rescheduled.isIdleAt e.cpu = false := by
    intro e member
    obtain ⟨slot, holds, -⟩ := r.touched e member
    refine Bool.eq_false_iff.2 fun idle => ?_
    rw [(isIdleAt_iff.1 idle).2] at holds
    cases holds
  have jobs : m.occupied.jobs = m.rescheduled.jobs :=
    jobs_eq_of_accounts_eq (moves_occupyIdle last.toConsistent).accounts_eq
  have nodup := List.nodup_range (n := m.rescheduled.cpus.size)
  have fills := trace_occupyThese last.toConsistent nodup
  have apart := pairwise_filled nodup m.rescheduled m.occupied
  refine ⟨events ++ m.rescheduled.dispatches (filled (List.range m.rescheduled.cpus.size)
    m.rescheduled m.occupied), ?_,
    (Answered.of_none unevicted).append (.of_none fun e member => ?_), fun e member kind => ?_,
    List.pairwise_append.2 ⟨r.apart, ?_, ?_⟩⟩
  · rw [← List.append_assoc]
    exact r.trace ▸ fills
  · obtain ⟨cpu, slot, job, -, -, rfl⟩ := mem_dispatches.1 member
    exact nofun
  · rcases List.mem_append.1 member with early | late
    · have same : m.occupied.held e.cpu = m.rescheduled.held e.cpu :=
        held_occupyThese _ _ (.inr (working e early))
      rw [running, same, jobs]
      exact r.shown e early kind
    · obtain ⟨cpu, slot, job, fill, found, rfl⟩ := mem_dispatches.1 late
      obtain ⟨-, -, holds⟩ := mem_filled.1 fill
      have holds' : m.occupied.held cpu = some slot := holds
      rw [running, holds', Option.bind_some, jobs, found, Option.map_some]
  · refine List.Pairwise.filterMap _ (fun a a' other b made b' made' => ?_) apart
    obtain ⟨job, -, rfl⟩ := Option.map_eq_some_iff.1 made
    obtain ⟨job', -, rfl⟩ := Option.map_eq_some_iff.1 made'
    exact fun _ _ _ => other
  · intro a early b late _ _ _ same
    obtain ⟨cpu, slot, job, fill, -, rfl⟩ := mem_dispatches.1 late
    obtain ⟨-, idle, -⟩ := mem_filled.1 fill
    have on_cpu : a.cpu = cpu := same
    rw [← on_cpu, working a early] at idle
    cases idle

/-- At the row of a tick no occupant could be evicted: a processor is left idle only if nobody is
ready any more. -/
theorem Converged.leads_occupied {cpu slot : Nat} (holds : m.occupied.held cpu = some slot) :
    m.occupied.Leads slot := by
  obtain ⟨last, none_left, -⟩ := conv.rescheduled rest srtf
  intro s ready
  obtain ⟨q, found, before⟩ := status?_eq_some.1 (rest.status?_rescheduled ready nofun)
  have busy : ∀ c, m.rescheduled.isIdleAt c = false := fun c => Bool.eq_false_iff.2 fun idle =>
    not_ready_of_idle none_left idle (List.mem_of_getElem? found)
      (last.arrived_of_ready found before) before
  have same : m.occupied = m.rescheduled := occupyThese_of_busy _ busy
  rw [same] at holds ready ⊢
  exact leads_of_preemption?_eq_none last.toConsistent none_left holds s ready

theorem Converged.step : Converged m.step := by
  obtain ⟨last, -⟩ := conv.rescheduled rest srtf
  constructor
  case orderly =>
    intro q member
    rw [rest.procs_step] at member
    obtain ⟨p, before, rfl⟩ := List.mem_map.1 member
    exact (last.orderly.occupyThese _ p before).pass m.now
  case settled =>
    intro cpu slot holds s ready
    have off : ∀ c, Status.ready ≠ .running c := by simp
    have ready' := (rest.status?_step s off (by simp)).1 ready
    obtain ⟨q, found, running⟩ := rest.step.slot_lt_of_held holds
    obtain ⟨r, found', waits⟩ := status?_eq_some.1 ready'
    rw [rest.procs_step, List.getElem?_map] at found
    obtain ⟨p, before, rfl⟩ := Option.map_eq_some_iff.1 found
    obtain ⟨at_cpu, -⟩ := ProcessRecord.status_pass_running.1 running
    have held := (rest.consistent_occupied.matching cpu slot).2
      (status?_eq_some.2 ⟨p, before, at_cpu⟩)
    have least := conv.leads_occupied rest srtf held s ready'
    rw [left_of_getElem? before, left_of_getElem? found'] at least
    have idle : r.isRunning = false := by simp [ProcessRecord.isRunning, waits]
    have kept := ProcessRecord.remaining_pass_of_off m.now idle
    have after : m.step.procs[s]? = some (r.pass m.now) := by
      rw [rest.procs_step, List.getElem?_map, found', Option.map_some]
    have after' : m.step.procs[slot]? = some (p.pass m.now) := by
      rw [rest.procs_step, List.getElem?_map, before, Option.map_some]
    rw [left_of_getElem? after, left_of_getElem? after', kept]
    exact (p.remaining_pass_le m.now).trans least
  case solvent =>
    have counted : m.step.started = m.occupied.started := by
      rw [started, rest.procs_step, List.countP_map, started]
      exact List.countP_congr fun p _ => by rw [Function.comp_apply, p.start_pass]
    have recorded : m.step.trace.ofKind .preempted = m.occupied.trace.ofKind .preempted :=
      rest.grows_occupied.ofKind_eq fun e later => by simp [later.2]
    unfold Solvent
    rw [counted, Trace.evictions, recorded]
    exact last.solvent.occupyThese _

end Tick

theorem Rescheduling.tick_eq {events : List Event} (r : Rescheduling m events) (rest : AtRest m) :
    ∀ e ∈ events, e.tick = m.now := by
  obtain ⟨events', grown, at_once⟩ := rest.moves_occupied.grows
  have before : m.enrolled.trace = m.trace := rfl
  rw [r.trace, before] at grown
  rw [List.append_cancel_left grown]
  exact at_once

/-! Runs. -/

/-- What a run has recorded in `n` ticks, as the machines before and in those ticks show it. -/
structure Chronicle (start : Machine) (n : Nat) (events : List Event) : Prop where
  answered : Answered (fun e e' => ∃ victim,
    Replaces (start.steps e.tick) (start.steps e.tick).occupied victim e e') events
  shown : ∀ e ∈ events, e.kind = .dispatched →
    e.tick < n ∧ (start.steps e.tick).occupied.running e.cpu = some e.pid
  apart : events.Pairwise Event.Apart

theorem Chronicle.next {start : Machine} {n : Nat} {old events later : List Event}
    (c : Chronicle start n old) (r : Rescheduling (start.steps n) events)
    (ticks : ∀ e ∈ events, e.tick = n) (completed : ∀ e ∈ later, e.kind = .completed) :
    Chronicle start (n + 1) (old ++ events ++ later) := by
  constructor
  case answered =>
    refine (c.answered.append (r.answered.mono fun e member e' _ _ answer => ?_)).append
      (.of_none fun e member => by rw [completed e member]; exact nofun)
    rw [ticks e member]
    exact answer
  case shown =>
    intro e member kind
    rcases List.mem_append.1 member with member | last
    · rcases List.mem_append.1 member with before | now
      · exact (c.shown e before kind).imp_left Nat.lt_succ_of_lt
      · rw [ticks e now]
        exact ⟨n.lt_succ_self, r.shown e now kind⟩
    · rw [completed e last] at kind
      cases kind
  case apart =>
    refine List.pairwise_append.2 ⟨List.pairwise_append.2 ⟨c.apart, r.apart, ?_⟩, ?_, ?_⟩
    · intro a before b now kind _ same
      have early := (c.shown a before kind).1
      rw [same, ticks b now] at early
      exact absurd early (Nat.lt_irrefl n)
    · refine List.pairwise_of_forall_mem_list fun a last b _ kind => ?_
      rw [completed a last] at kind
      cases kind
    · intro a _ b last _ kind
      rw [completed b last] at kind
      cases kind

section Run
variable {start : Machine} (rest : AtRest start) (conv : Converged start)
  (srtf : start.policy = .srtf)
include rest conv srtf

omit conv in
theorem AtRest.srtf_steps (n : Nat) : (start.steps n).policy = .srtf :=
  (rest.policy_steps_eq (by rw [srtf]; rfl) n).trans srtf

theorem Converged.steps (n : Nat) : Converged (start.steps n) := by
  induction n with
  | zero => exact conv
  | succ n ih =>
    rw [steps_succ]
    exact ih.step (rest.steps n) (rest.srtf_steps srtf n)

theorem Converged.chronicle (zero : start.now = 0) (blank : start.trace = #[]) (n : Nat) :
    Chronicle start n (start.steps n).trace.toList := by
  induction n with
  | zero =>
    have none_yet : (start.steps 0).trace.toList = [] := by rw [Machine.steps, blank]
    rw [none_yet]
    exact ⟨.of_none (by simp), by simp, .nil⟩
  | succ n ih =>
    have rest' := rest.steps n
    obtain ⟨events, r⟩ := (conv.steps rest srtf n).events rest' (rest.srtf_steps srtf n)
    obtain ⟨later, grown, completed⟩ := rest'.grows_occupied
    have now : (start.steps n).now = n := by rw [rest.now_steps, zero, Nat.zero_add]
    rw [steps_succ, grown, r.trace]
    exact ih.next r (fun e member => (r.tick_eq rest' e member).trans now)
      fun e member => (completed e member).2

end Run

/-- In the first `n` ticks of a run every eviction is at once followed by the first dispatch, on the
same processor, of a process that has just arrived and is shorter than what the evicted one has
left. A processor gets at most one process in a tick, which it holds at the row of the tick, and
which is not one that was evicted in that tick. -/
structure PreemptsAtArrivals (start : Machine) (n : Nat) (record : Trace) : Prop where
  replaced : ∀ (i : Nat) (e : Event), record[i]? = some e → e.kind = .preempted →
    ∃ e' victim, record[i + 1]? = some e' ∧
      Replaces (start.steps e.tick) (start.steps e.tick).occupied victim e e' ∧
      ∀ d ∈ record, d.kind = .dispatched → d.tick = e.tick → ∃ slot ≠ victim,
        (start.steps e.tick).occupied.held d.cpu = some slot ∧
          start.jobs[slot]?.map (·.pid) = some d.pid
  shown : ∀ d ∈ record, d.kind = .dispatched →
    d.tick < n ∧ (start.steps d.tick).occupied.running d.cpu = some d.pid
  apart : record.toList.Pairwise Event.Apart

theorem Chronicle.preemptsAtArrivals {start : Machine} {n : Nat} {record : Trace}
    (c : Chronicle start n record.toList) (rest : AtRest start) :
    PreemptsAtArrivals start n record := by
  constructor
  case replaced =>
    intro i e found kind
    rw [← Array.getElem?_toList] at found
    obtain ⟨e', next, victim, replaces⟩ := c.answered i e found kind
    rw [Array.getElem?_toList] at next
    refine ⟨e', victim, next, replaces, fun d member kind' same => ?_⟩
    obtain ⟨-, shown⟩ := c.shown d (Array.mem_toList_iff.2 member) kind'
    obtain ⟨-, -, -, -, -, -, -, -, -, -, -, -, waits⟩ := replaces
    have tick := rest.steps e.tick
    have jobs : (start.steps e.tick).occupied.jobs = start.jobs :=
      tick.jobs_occupied.trans (rest.jobs_steps e.tick)
    rw [same, running, jobs] at shown
    obtain ⟨slot, holds, pid⟩ := Option.bind_eq_some_iff.1 shown
    refine ⟨slot, ?_, holds, pid⟩
    rintro rfl
    rw [(tick.consistent_occupied.matching d.cpu slot).1 holds] at waits
    cases waits
  case shown => exact fun d member => c.shown d (Array.mem_toList_iff.2 member)
  case apart => exact c.apart

/-- The process that is dispatched first evicts nobody. -/
theorem Solvent.evictions_lt (solvent : m.Solvent) :
    m.trace.evictions ≤ m.jobs.length - 1 := by
  have counted : m.started ≤ m.procs.length := List.countP_le_length
  have length : m.procs.length = m.jobs.length := (List.length_map _).symm
  unfold Solvent at solvent
  omega

theorem converged_boot (s : Scenario) (policy : Policy) : Converged (boot s policy) := by
  constructor
  case orderly =>
    intro p member
    obtain ⟨job, -, rfl⟩ := List.mem_map.1 member
    exact ProcessRecord.orderly_of_waiting rfl
  case settled => exact fun _ _ _ slot ready => absurd ready (unready_boot s policy slot)
  case solvent => exact Nat.zero_le _

theorem Converged.say (c : Converged m) (n : Log.Notice) : Converged (m.say n) :=
  ⟨c.orderly, c.settled, c.solvent⟩

/-- Under shortest remaining time, in runs of any length and in every simulation, only a shorter
process that arrives evicts, and evictions are fewer than processes. -/
theorem srtf_preempts_at_arrivals (s : Scenario) :
    (∀ n, let record := ((boot s .srtf).steps n).trace
      PreemptsAtArrivals (boot s .srtf) n record ∧ record.evictions ≤ s.jobs.length - 1) ∧
    ∀ quantum, let d : Discipline := ⟨.srtf, quantum⟩
      let o := simulate d s
      PreemptsAtArrivals (begun d s) o.totalTicks o.machine.trace ∧
        o.machine.trace.evictions ≤ s.jobs.length - 1 := by
  have run : ∀ start : Machine, AtRest start → Converged start → start.policy = .srtf →
      start.now = 0 → start.trace = #[] → start.jobs = s.jobs → ∀ n,
      PreemptsAtArrivals start n (start.steps n).trace ∧
        (start.steps n).trace.evictions ≤ s.jobs.length - 1 := by
    intro start rest conv srtf zero blank jobs n
    refine ⟨(conv.chronicle rest srtf zero blank n).preemptsAtArrivals rest, ?_⟩
    rw [← jobs, ← rest.jobs_steps n]
    exact (conv.steps rest srtf n).solvent.evictions_lt
  constructor
  · exact run (boot s .srtf) (atRest_boot s .srtf 0 0) (converged_boot s .srtf) rfl rfl rfl
      (jobs_boot s .srtf)
  · intro quantum d
    obtain ⟨k, -, outcome, -⟩ := simulate_eq d s
    have rest := atRest_begun d s
    have conv : Converged (begun d s) := (converged_boot s .srtf).say _
    rw [outcome]
    intro o
    have ticks : o.totalTicks = k := (rest.now_steps k).trans (Nat.zero_add k)
    rw [ticks]
    exact run (begun d s) rest conv rfl rfl rfl (jobs_begun d s) k

/-- The second of two processes evicts the first when it arrives, and no third eviction could
follow. -/
theorem srtf_preempts_at_arrivals_shorter :
    let start := boot shorterArrival .srtf
    let record := (start.steps 4).trace
    record[1]? = some ⟨1, 0, .preempted, 1⟩ ∧
      (∃ e' victim, record[2]? = some e' ∧
        Replaces (start.steps 1) (start.steps 1).occupied victim ⟨1, 0, .preempted, 1⟩ e') ∧
      record.evictions = 1 ∧ record.evictions ≤ shorterArrival.jobs.length - 1 := by
  intro start record
  have evicted : record[1]? = some ⟨1, 0, .preempted, 1⟩ := by decide +kernel
  obtain ⟨law, few⟩ := (srtf_preempts_at_arrivals shorterArrival).1 4
  obtain ⟨e', victim, next, replaces, -⟩ := law.replaced 1 _ evicted rfl
  exact ⟨evicted, ⟨e', victim, next, replaces⟩, by decide +kernel, few⟩

end Machine
end CpuScheduling
