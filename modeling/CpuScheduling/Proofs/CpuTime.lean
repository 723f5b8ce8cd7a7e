import CpuScheduling.Proofs.Execution
import CpuScheduling.Proofs.Replay
/-!
Time on processors. A trace gives the time that a process has spent on processors by the intervals
between its dispatches and the events that end them. If no two processes share an identifier, this
is the work it has done and the cells that show it, but for an interval that is still open: what a
process has worked since its last dispatch is missing while it runs.
-/
namespace CpuScheduling

namespace Trace

/-- The tally of an identifier after all events of a trace. -/
def tally (trace : Trace) (pid : Int) : Tally :=
  trace.foldl (fun tally e => if e.pid = pid then tally.note e else tally) {}

theorem tally_push (trace : Trace) (e : Event) (pid : Int) :
    tally (trace.push e) pid = if e.pid = pid then (trace.tally pid).note e else trace.tally pid :=
  Array.foldl_push ..

theorem tally_push_self (trace : Trace) (e : Event) :
    tally (trace.push e) e.pid = (trace.tally e.pid).note e := by rw [tally_push, if_pos rfl]

theorem tally_push_of_ne (trace : Trace) (e : Event) {pid : Int} (other : pid ≠ e.pid) :
    tally (trace.push e) pid = trace.tally pid := by rw [tally_push, if_neg other.symm]

end Trace

namespace ProcessRecord
variable {tally : Trace.Tally} {now : Nat} {p : ProcessRecord}

/-- A record and the tally of its events at a tick. The closed intervals make up the work that is
done, but for the slice of a process that runs, whose interval is open. -/
structure Timed (tally : Trace.Tally) (now : Nat) (p : ProcessRecord) : Prop where
  opened : p.isRunning = true → tally.total + p.sliceUsed + p.remaining = p.burst ∧
    ∃ since, tally.since = some since ∧ since + p.sliceUsed = now
  closed : p.isRunning = false → tally.total + p.remaining = p.burst ∧ tally.since = none

/-- For who does not run it is always the same time. -/
theorem Timed.of_off (timed : p.Timed tally now) (off : p.isRunning = false) (later : Nat) :
    p.Timed tally later := ⟨fun running => absurd running (by simp [off]), timed.closed⟩

theorem Timed.dispatch (timed : p.Timed tally now) (off : p.isRunning = false) (cpu : Nat)
    (pid : Int) : (p.dispatch cpu now).Timed (tally.note ⟨now, cpu, .dispatched, pid⟩) now where
  opened _ := ⟨(timed.closed off).1, now, rfl, rfl⟩
  closed running := by cases running

/-- Whatever takes a process off its processor closes the interval. -/
theorem Timed.leave (timed : p.Timed tally now) (running : p.isRunning = true)
    {kind : Event.Kind} (ends : kind ≠ .dispatched) (cpu : Nat) (pid : Int) :
    (tally.note ⟨now, cpu, kind, pid⟩).total + p.remaining = p.burst ∧
      (tally.note ⟨now, cpu, kind, pid⟩).since = none := by
  obtain ⟨whole, since, opened, slice⟩ := timed.opened running
  have noted : tally.note ⟨now, cpu, kind, pid⟩ = ⟨tally.total + (now - since), none⟩ := by
    cases kind <;> simp_all [Trace.Tally.note]
  rw [noted]
  exact ⟨by dsimp only; omega, rfl⟩

/-- In the middle of the work of a tick the clocks of those that run on the first `n` processors
have gone on. -/
def workClock (now n : Nat) (p : ProcessRecord) : Nat := if p.runsBefore n then now + 1 else now

theorem workClock_of_running {cpu : Nat} (running : p.status = .running cpu) (n : Nat) :
    p.workClock now n = if cpu < n then now + 1 else now := by
  simp only [workClock, runsBefore, running, decide_eq_true_eq]

theorem workClock_zero (now : Nat) : workClock now 0 = fun _ => now := by
  funext p
  cases status : p.status <;> simp [workClock, runsBefore, status]

theorem workClock_self {cpu : Nat} (running : p.status = .running cpu) (now : Nat) :
    p.workClock now cpu = now := by
  rw [workClock_of_running running, if_neg (Nat.lt_irrefl cpu)]

theorem workClock_succ {cpu : Nat} (running : p.status = .running cpu) (now : Nat) :
    p.workClock now (cpu + 1) = now + 1 := by
  rw [workClock_of_running running, if_pos (Nat.lt_succ_self cpu)]

/-- The work of a processor takes its occupant to the end of the tick. -/
theorem Timed.work {cpu : Nat} (timed : p.Timed tally (p.workClock now cpu))
    (running : p.status = .running cpu) (work_left : 0 < p.remaining) (pid : Int) :
    (p.work now).Timed
      (if p.remaining ≤ 1 then tally.note ⟨now + 1, cpu, .completed, pid⟩ else tally)
      ((p.work now).workClock now (cpu + 1)) := by
  have runs : p.isRunning = true := isRunning_iff.2 ⟨cpu, running⟩
  let worked := { p with remaining := p.remaining - 1, sliceUsed := p.sliceUsed + 1 }
  have going : worked.Timed tally (now + 1) := by
    obtain ⟨whole, since, opened, slice⟩ := timed.opened runs
    rw [workClock_self running] at slice
    refine ⟨fun _ => ⟨?_, since, opened, congrArg (· + 1) slice⟩, fun off => ?_⟩
    · show tally.total + (p.sliceUsed + 1) + (p.remaining - 1) = p.burst
      omega
    · exact absurd runs (Bool.eq_false_iff.1 off)
  split
  next last =>
    have done : p.work now = { worked with status := .completed, finish := some (now + 1) } :=
      work_of_last now last
    have ends : Event.Kind.completed ≠ .dispatched := nofun
    rw [done]
    exact ⟨nofun, fun _ => going.leave runs ends cpu pid⟩
  next more =>
    have same : p.work now = worked := work_of_more now (Nat.lt_of_not_le more)
    have running' : worked.status = .running cpu := running
    rwa [same, workClock_succ running']

/-- Whoever still runs after a tick has worked in it. -/
theorem sliceUsed_pass_pos (running : (p.pass now).isRunning = true) :
    0 < (p.pass now).sliceUsed := by
  obtain ⟨cpu, at_cpu⟩ := isRunning_iff.1 running
  have before : p.isRunning = true := isRunning_iff.2 ⟨cpu, (status_pass_running.1 at_cpu).1⟩
  rw [pass, if_pos before, ProcessRecord.work]
  dsimp only
  split <;> exact Nat.succ_pos _

end ProcessRecord

/-- All records of a table are timed by a trace, each at a clock of its own. -/
def TimedBy (clock : ProcessRecord → Nat) (procs : List ProcessRecord) (trace : Trace) : Prop :=
  ∀ (slot : Nat) p, procs[slot]? = some p → p.Timed (trace.tally p.pid) (clock p)

namespace Machine
variable {m m' : Machine} {clock : ProcessRecord → Nat} {slot : Nat} {p q : ProcessRecord}

/-- No two processes share an identifier. -/
def Named (m : Machine) : Prop := (m.jobs.map (·.pid)).Nodup

theorem Named.ne (named : m.Named) {s : Nat} {r : ProcessRecord}
    (found : m.procs[slot]? = some p) (found' : m.procs[s]? = some r) (other : s ≠ slot) :
    p.pid ≠ r.pid := by
  intro same
  have pids : ∀ {i : Nat} {a : ProcessRecord}, m.procs[i]? = some a →
      (m.jobs.map (·.pid))[i]? = some a.pid := fun at_i => by
    rw [jobs, List.getElem?_map, List.getElem?_map, at_i]
    rfl
  have inside := (List.getElem?_eq_some_iff.1 (pids found')).1
  exact other ((List.getElem?_inj inside named).1 ((pids found').trans (same ▸ (pids found).symm)))

/-- What happens to one process is told by events of its own, and so leaves the others timed. -/
theorem TimedBy.set (named : m.Named) (found : m.procs[slot]? = some p)
    (others : ∀ s r, s ≠ slot → m.procs[s]? = some r → r.Timed (m.trace.tally r.pid) (clock r))
    {trace : Trace}
    (own : ∀ pid, pid ≠ p.pid → trace.tally pid = m.trace.tally pid)
    (changed : q.Timed (trace.tally q.pid) (clock q)) :
    TimedBy clock (m.procs.set slot q) trace := by
  intro s r at_s
  by_cases here : s = slot
  · subst here
    rw [List.getElem?_set_self (List.getElem?_eq_some_iff.1 found).1] at at_s
    obtain rfl := Option.some.inj at_s
    exact changed
  · rw [List.getElem?_set_ne (Ne.symm here)] at at_s
    rw [own r.pid (named.ne found at_s here).symm]
    exact others s r here at_s

/-! One tick. -/

theorem Move.timed (step : Move m m') (named : m.Named)
    (timed : TimedBy (fun _ => m.now) m.procs m.trace) :
    TimedBy (fun _ => m.now) m'.procs m'.trace := by
  cases step with
  | @place cpu slot p idle found pending arrived unqueued =>
    have off : p.isRunning = false := by
      rcases pending with status | status <;> simp [ProcessRecord.isRunning, status]
    rw [dispatch_eq m cpu slot found]
    let e : Event := ⟨m.now, cpu, .dispatched, p.pid⟩
    refine TimedBy.set named found (fun s r _ => timed s r)
      (fun _ => m.trace.tally_push_of_ne e) ?_
    exact m.trace.tally_push_self e ▸ (timed slot p found).dispatch off cpu p.pid
  | @displace cpu slot p holds found running status kind cause notice =>
    have ends : kind ≠ .dispatched := by rcases cause with ⟨-, rfl⟩ | ⟨-, rfl⟩ <;> decide
    have off : ({ p with status } : ProcessRecord).isRunning = false := by
      rcases cause with ⟨rfl, -⟩ | ⟨rfl, -⟩ <;> rfl
    have left := (timed slot p found).leave (ProcessRecord.isRunning_iff.2 ⟨cpu, running⟩) ends cpu
      p.pid
    let e : Event := ⟨m.now, cpu, kind, p.pid⟩
    refine TimedBy.set named found (fun s r _ => timed s r)
      (fun _ => m.trace.tally_push_of_ne e) ?_
    refine ⟨fun running => absurd running (by simp [off]), fun _ => ?_⟩
    exact m.trace.tally_push_self e ▸ left
  | enqueue ready unqueued =>
    rw [procs_sendToQueue, trace_sendToQueue]
    exact timed
  | dequeue policy => exact timed

theorem Moves.timed (steps : Moves m m') (named : m.Named)
    (timed : TimedBy (fun _ => m.now) m.procs m.trace) :
    TimedBy (fun _ => m.now) m'.procs m'.trace := by
  induction steps with
  | refl => exact timed
  | @tail x y before last ih =>
    have same : x.Named := by
      rw [Named, jobs_eq_of_accounts_eq (Moves.accounts_eq before)]
      exact named
    rw [← Moves.now_eq before] at ih ⊢
    exact last.timed same ih

/-- From the arrivals to the row of the timeline no time passes. -/
theorem AtRest.timed_occupied (rest : AtRest m) (named : m.Named)
    (timed : TimedBy (fun _ => m.now) m.procs m.trace) :
    TimedBy (fun _ => m.now) m.occupied.procs m.occupied.trace := by
  have named' : m.enrolled.Named := by
    rw [Named, jobs_eq_of_accounts_eq m.accounts_enrolled]
    exact named
  refine rest.moves_occupied.timed named' fun slot q found => ?_
  rw [procs_enrolled, List.getElem?_map] at found
  obtain ⟨p, before, rfl⟩ := Option.map_eq_some_iff.1 found
  rcases p.enroll_cases m.policy.algorithm m.now with same | ⟨waiting, -, ready⟩
  · rw [same]
    exact timed slot p before
  · have off : p.isRunning = false := by rw [ProcessRecord.isRunning, waiting]
    rw [ready]
    exact ⟨fun running => absurd running Bool.false_ne_true,
      fun _ => (timed slot p before).closed off⟩

theorem Consistent.workClock_of_ne (h : Consistent m) {cpu : Nat} (found : m.procs[slot]? = some p)
    (other : m.held cpu ≠ some slot) (now : Nat) :
    p.workClock now (cpu + 1) = p.workClock now cpu := by
  rw [ProcessRecord.workClock, h.runsBefore_succ found other, ProcessRecord.workClock]

theorem Consistent.workClock_size (h : Consistent m) (found : m.procs[slot]? = some p)
    (running : p.isRunning = true) (now : Nat) : p.workClock now m.cpus.size = now + 1 := by
  rw [ProcessRecord.workClock, h.runsBefore_size found, running, if_pos rfl]

theorem timed_workAt {x : Machine} {cpu : Nat} (h : Consistent m) (named : m.Named)
    (work_left : ∀ p ∈ m.procs, p.isRunning = true → 0 < p.remaining)
    (half : HalfVisited ProcessRecord.work m cpu x) (hx : Consistent x) (jobs : x.jobs = m.jobs)
    (timed : TimedBy (·.workClock m.now cpu) x.procs x.trace) :
    TimedBy (·.workClock m.now (cpu + 1)) (workAt cpu x).procs (workAt cpu x).trace := by
  have others : ∀ s r, x.held cpu ≠ some s → x.procs[s]? = some r →
      r.Timed (x.trace.tally r.pid) (r.workClock m.now (cpu + 1)) := by
    intro s r other found
    rw [hx.workClock_of_ne found other]
    exact timed s r found
  cases holds : x.held cpu with
  | none =>
    rw [workAt_of_vacant (occupant?_eq_none holds)]
    exact fun s r found => others s r (by rw [holds]; exact nofun) found
  | some slot =>
    have holds_first : m.held cpu = some slot := half.held cpu (Nat.le_refl cpu) ▸ holds
    obtain ⟨p, found, running⟩ := h.slot_lt_of_held holds_first
    have at_slot := half.found h holds_first found
    have left := work_left p (List.mem_of_getElem? found)
      (ProcessRecord.isRunning_iff.2 ⟨cpu, running⟩)
    have pid : (p.work m.now).pid = p.pid := congrArg (·.pid) (p.toJob_work m.now)
    let e : Event := ⟨m.now + 1, cpu, .completed, p.pid⟩
    have told : ∀ id, Trace.tally (if p.remaining ≤ 1 then x.trace.push e else x.trace) id =
        if p.remaining ≤ 1 then Trace.tally (x.trace.push e) id else x.trace.tally id :=
      fun id => apply_ite (Trace.tally · id) _ _ _
    rw [procs_workAt holds at_slot, trace_workAt holds at_slot, half.now]
    refine TimedBy.set (by rwa [Named, jobs]) at_slot (fun s r here => others s r fun holds' =>
      here (Option.some.inj (holds'.symm.trans holds))) (fun id other => ?_) ?_
    · rw [told, x.trace.tally_push_of_ne e other, ite_self]
    · rw [told, pid, x.trace.tally_push_self e]
      exact (timed slot p at_slot).work running left p.pid

theorem timed_work (h : Consistent m) (named : m.Named)
    (work_left : ∀ p ∈ m.procs, p.isRunning = true → 0 < p.remaining)
    (timed : TimedBy (fun _ => m.now) m.procs m.trace) :
    TimedBy (fun _ => m.now + 1) m.work.procs m.work.trace := by
  obtain ⟨-, hx, jobs, round⟩ : HalfVisited ProcessRecord.work m m.cpus.size m.work ∧
      Consistent m.work ∧ m.work.jobs = m.jobs ∧
        TimedBy (·.workClock m.now m.cpus.size) m.work.procs m.work.trace := by
    refine atEachCpu_induction (P := fun cpu x => HalfVisited ProcessRecord.work m cpu x ∧
      Consistent x ∧ x.jobs = m.jobs ∧ TimedBy (·.workClock m.now cpu) x.procs x.trace)
      ⟨.start m, h, rfl, ProcessRecord.workClock_zero m.now ▸ timed⟩ ?_
    rintro cpu x - ⟨half, hx, jobs, timed⟩
    exact ⟨half.next h visits_workAt, hx.workAt cpu, (jobs_workAt x cpu).trans jobs,
      timed_workAt h named work_left half hx jobs timed⟩
  intro slot p found
  have passed : p.Timed _ (p.workClock m.now m.cpus.size) := round slot p found
  cases running : p.isRunning with
  | true => rwa [← size_cpus_work, hx.workClock_size found running] at passed
  | false => exact passed.of_off running _

theorem timed_ageWaiting (timed : TimedBy (fun _ => m.now) m.procs m.trace) :
    TimedBy (fun _ => m.now) m.ageWaiting.procs m.ageWaiting.trace := by
  intro slot q found
  have aged : m.ageWaiting.procs[slot]? = m.procs[slot]?.map (·.ageWaiting m.now) :=
    List.getElem?_map ..
  rw [aged] at found
  obtain ⟨p, before, rfl⟩ := Option.map_eq_some_iff.1 found
  have so_far := timed slot p before
  unfold ProcessRecord.ageWaiting
  split
  · exact ⟨so_far.opened, so_far.closed⟩
  · exact so_far

theorem AtRest.jobs_aged (rest : AtRest m) : m.aged.jobs = m.jobs := by
  rw [← rest.jobs_occupied]
  show (m.occupied.procs.map _).map _ = m.occupied.procs.map _
  rw [List.map_map]
  exact List.map_congr_left fun p _ => p.toJob_ageWaiting _

theorem AtRest.timed_step (rest : AtRest m) (balanced : m.Balanced) (named : m.Named)
    (timed : TimedBy (fun _ => m.now) m.procs m.trace) :
    TimedBy (fun _ => m.step.now) m.step.procs m.step.trace := by
  have aged : TimedBy (fun _ => m.aged.now) m.aged.procs m.aged.trace := by
    have occupied := rest.timed_occupied named timed
    rw [← rest.now_occupied] at occupied
    exact timed_ageWaiting (m := m.shown) occupied
  have work_left : ∀ p ∈ m.aged.procs, p.isRunning = true → 0 < p.remaining := by
    intro q member running
    obtain ⟨p, before, rfl⟩ := List.mem_map.1 (show q ∈ m.occupied.procs.map _ from member)
    rw [ProcessRecord.isRunning, p.status_ageWaiting] at running
    have left := rest.work_left_of_running balanced before running
    unfold ProcessRecord.ageWaiting
    split <;> exact left
  have worked := timed_work rest.consistent_aged (by rwa [Named, rest.jobs_aged]) work_left aged
  have now : m.aged.now = m.now := rest.now_occupied
  rw [now, ← rest.now_step] at worked
  exact worked

theorem AtRest.timed_steps (rest : AtRest m) (balanced : m.Balanced) (named : m.Named)
    (timed : TimedBy (fun _ => m.now) m.procs m.trace) (n : Nat) :
    TimedBy (fun _ => (m.steps n).now) (m.steps n).procs (m.steps n).trace := by
  induction n with
  | zero => exact timed
  | succ n ih =>
    rw [steps_succ]
    refine (rest.steps n).timed_step (balanced.steps rest n) ?_ ih
    rwa [Named, rest.jobs_steps]

/-! Runs. -/

theorem timed_begun (d : Discipline) (s : Scenario) :
    TimedBy (fun _ => (begun d s).now) (begun d s).procs (begun d s).trace := by
  intro slot p found
  rw [fresh_boot s d.policy p (List.mem_of_getElem? found)]
  exact ⟨nofun, fun _ => ⟨Nat.zero_add _, rfl⟩⟩

/-- Between two ticks, whoever runs has used a tick of its slice. -/
theorem sliceUsed_pos (d : Discipline) (s : Scenario) (n : Nat) :
    ∀ p ∈ ((begun d s).steps n).procs, p.isRunning = true → 0 < p.sliceUsed := by
  intro q member running
  cases n with
  | zero =>
    rw [fresh_boot s d.policy q member] at running
    cases running
  | succ n =>
    rw [steps_succ, ((atRest_begun d s).steps n).procs_step] at member
    obtain ⟨p, -, rfl⟩ := List.mem_map.1 member
    exact ProcessRecord.sliceUsed_pass_pos running

theorem filter_key_eq {α : Type} {key : α → Int} {l : List α} (nodup : (l.map key).Nodup) {a : α}
    (member : a ∈ l) : l.filter (key · == key a) = [a] := by
  induction l with
  | nil => cases member
  | cons b l ih =>
    obtain ⟨absent, nodup⟩ := List.nodup_cons.1 nodup
    rcases List.mem_cons.1 member with rfl | later
    · have others : l.filter (key · == key a) = [] := List.filter_eq_nil_iff.2 fun c inside same =>
        absent (List.mem_map.2 ⟨c, inside, eq_of_beq same⟩)
      rw [List.filter_cons, if_pos (beq_self_eq_true _), others]
    · have other : key b ≠ key a := fun same => absent (List.mem_map.2 ⟨a, later, same.symm⟩)
      rw [List.filter_cons_of_neg (by simpa using other)]
      exact ih nodup later

/-- If no two processes share an identifier, a process fills as many cells of the timeline as it has
worked ticks, and its time on processors by the trace is the same, but for the slice of a process
that runs when the simulation ends: that is always missing. -/
theorem cpu_time_but_open_slice (s : Scenario) (bursts : ∀ job ∈ s.jobs, 0 < job.burst)
    (named : (s.jobs.map (·.pid)).Nodup) (d : Discipline) :
    let o := simulate d s
    ∀ p ∈ o.machine.procs, p.workDone + p.remaining = p.burst ∧
      o.machine.timeline.cells.count (some p.pid) = p.workDone ∧
      o.machine.trace.cpuTime p.pid + (if p.isRunning then p.sliceUsed else 0) = p.workDone ∧
      (o.machine.trace.cpuTime p.pid = p.workDone ↔ p.isRunning = false) := by
  obtain ⟨k, -, outcome, -⟩ := simulate_eq d s
  have rest := atRest_begun d s
  have balanced := balanced_begun d s bursts
  have jobs : ((begun d s).steps k).jobs = s.jobs := (rest.jobs_steps k).trans (jobs_begun d s)
  have timed := rest.timed_steps balanced (by rwa [Named, jobs_begun]) (timed_begun d s) k
  have executes := (executesOnce_begun d s).steps rest (charted_begun d s) balanced k
  rw [outcome]
  intro o p member
  have within : p.remaining ≤ p.burst := executes.remaining_le p member
  have cells : ((begun d s).steps k).timeline.cells.count (some p.pid) = p.workDone := by
    have pids : (((begun d s).steps k).procs.map (·.pid)).Nodup := by
      have same := congrArg (List.map (·.pid)) jobs
      rw [Machine.jobs, List.map_map] at same
      exact same ▸ named
    rw [executes.shares, filter_key_eq pids member]
    exact Nat.add_zero _
  obtain ⟨slot, found⟩ := List.mem_iff_getElem?.1 member
  obtain ⟨opened, closed⟩ := timed slot p found
  have used := sliceUsed_pos d s k p member
  have total : o.machine.trace.cpuTime p.pid =
      (((begun d s).steps k).trace.tally p.pid).total := rfl
  refine ⟨Nat.sub_add_cancel within, cells, ?_⟩
  rw [total, ProcessRecord.workDone]
  cases running : p.isRunning with
  | true =>
    have whole := (opened running).1
    have some_used := used running
    rw [if_pos rfl]
    exact ⟨by omega, iff_of_false (by omega) (by decide)⟩
  | false =>
    have whole := (closed running).1
    rw [if_neg Bool.false_ne_true]
    exact ⟨by omega, iff_of_true (by omega) rfl⟩

/-- The first process was evicted after one tick; its second slice is open when the run is cut
off. -/
theorem cpu_time_but_open_slice_evicted :
    let s := { shorterArrival with limit := some 3 }
    let o := simulate ⟨.srtf, 2⟩ s
    (∀ job ∈ s.jobs, 0 < job.burst) ∧ (s.jobs.map (·.pid)).Nodup ∧
      ∃ p ∈ o.machine.procs, p.pid = 1 ∧ p.isRunning = true ∧
        o.machine.timeline.cells.count (some 1) = 2 ∧ o.machine.trace.cpuTime 1 + 1 = 2 ∧
        o.machine.trace.ofKind .dispatched = [⟨0, 0, .dispatched, 1⟩, ⟨1, 0, .dispatched, 2⟩,
          ⟨2, 0, .dispatched, 1⟩] := by
  intro s o
  have bursts : ∀ job ∈ s.jobs, 0 < job.burst := by decide
  have named : (s.jobs.map (·.pid)).Nodup := by decide
  obtain ⟨p, member, pid, running, slice, done⟩ : ∃ p ∈ o.machine.procs, p.pid = 1 ∧
      p.isRunning = true ∧ p.sliceUsed = 1 ∧ p.workDone = 2 := by decide +kernel
  obtain ⟨-, cells, time, -⟩ := cpu_time_but_open_slice s bursts named ⟨.srtf, 2⟩ p member
  rw [if_pos running, slice] at time
  rw [pid, done] at cells time
  exact ⟨bursts, named, p, member, pid, running, cells, time, by decide +kernel⟩

/-- A job of three ticks in a run of one tick. -/
def cutShort : Scenario :=
  { cpus := 1, cpus_pos := Nat.one_pos, jobs := [⟨1, 0, 3, 0⟩], limit := some 1 }

/-- The trace gives the process no time at all; it has worked for the tick that shows it. -/
theorem cpu_time_ne_cells_cut_short :
    let o := simulate ⟨.fcfs, 2⟩ cutShort
    (∀ job ∈ cutShort.jobs, 0 < job.burst) ∧ (cutShort.jobs.map (·.pid)).Nodup ∧
      o.machine.trace.cpuTime 1 = 0 ∧ o.machine.timeline.cells.count (some 1) = 1 ∧
      o.machine.procs.map (fun p => (p.pid, p.workDone)) = [(1, 1)] := by decide +kernel

end Machine
end CpuScheduling
