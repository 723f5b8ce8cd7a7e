import CpuScheduling.Proofs.CpuTime
import CpuScheduling.Proofs.Portions
/-!
Round robin slices exactly. On each processor a dispatch is ended by an expiry after just a quantum,
or by a completion after a quantum at most, and by nothing else. So a process that completes has
been dispatched as often as its burst takes quanta, and every time but the last its quantum expired.
-/
namespace CpuScheduling

namespace Machine
variable {m x y : Machine} {quantum now b cpu slot : Nat} {p : ProcessRecord}
  {clock bound clock' bound' : ProcessRecord → Nat}

/-- What began the slice of the occupant of a processor. -/
def Since (clock : ProcessRecord → Nat) (m : Machine) (cpu : Nat) : Option Event → Prop
  | none => m.held cpu = none
  | some start => ∃ slot p, m.held cpu = some slot ∧ m.procs[slot]? = some p ∧
      p.pid = start.pid ∧ start.tick + p.sliceUsed = clock p

/-- A machine whose trace is measured in quanta, with a clock for each record and a bound on the
part of its slice that is used up. -/
structure InSlices (quantum : Nat) (clock bound : ProcessRecord → Nat) (m : Machine) : Prop where
  measured : ∀ cpu, ∃ since?, Measured quantum (m.trace.onCpu cpu) since? ∧ Since clock m cpu since?
  portioned : ∀ (slot : Nat) p, m.procs[slot]? = some p → p.Portioned quantum (bound p)
    (m.trace.count .dispatched p.pid) (m.trace.count .expired p.pid)

namespace InSlices

/-- What goes on outside of processors. -/
theorem map (slices : InSlices quantum clock bound x) (f : ProcessRecord → ProcessRecord)
    (procs : y.procs = x.procs.map f) (held : y.held = x.held) (trace : y.trace = x.trace)
    (same : ∀ (slot : Nat) p, x.procs[slot]? = some p → (f p).pid = p.pid ∧
      (f p).sliceUsed = p.sliceUsed ∧ (∀ cpu, x.held cpu = some slot → clock' (f p) = clock p) ∧
      ∀ d e, p.Portioned quantum (bound p) d e → (f p).Portioned quantum (bound' (f p)) d e) :
    InSlices quantum clock' bound' y := by
  constructor
  case measured =>
    intro cpu
    obtain ⟨since?, measured, since⟩ := slices.measured cpu
    refine ⟨since?, trace ▸ measured, ?_⟩
    cases since? with
    | none => exact (congrFun held cpu).trans since
    | some start =>
      obtain ⟨slot, p, holds, found, pid, eq⟩ := since
      obtain ⟨same_pid, slice, time, -⟩ := same slot p found
      refine ⟨slot, f p, (congrFun held cpu).trans holds, ?_, same_pid.trans pid,
        by rw [slice, time cpu holds, eq]⟩
      rw [procs, List.getElem?_map, found, Option.map_some]
  case portioned =>
    intro slot q found
    rw [procs, List.getElem?_map] at found
    obtain ⟨p, before, rfl⟩ := Option.map_eq_some_iff.1 found
    obtain ⟨pid, -, -, portion⟩ := same slot p before
    rw [trace, pid]
    exact portion _ _ (slices.portioned slot p before)

theorem congr (slices : InSlices quantum clock bound x) (procs : y.procs = x.procs)
    (held : y.held = x.held) (trace : y.trace = x.trace) : InSlices quantum clock bound y :=
  slices.map id (procs.trans (List.map_id _).symm) held trace fun _ _ _ =>
    ⟨rfl, rfl, fun _ _ => rfl, fun _ _ => id⟩

/-- What happens to the process of a slot on a processor is told by events of its own. -/
theorem change (slices : InSlices quantum clock bound x) (named : x.Named) (cpu : Nat)
    (found : x.procs[slot]? = some p) {q : ProcessRecord} (procs : y.procs = x.procs.set slot q)
    (held : ∀ c ≠ cpu, y.held c = x.held c) (apart : ∀ c ≠ cpu, x.held c ≠ some slot)
    (grows : Trace.Grows (fun e => e.cpu = cpu ∧ e.pid = p.pid) x.trace y.trace)
    (others : ∀ (s : Nat) r, s ≠ slot → x.procs[s]? = some r →
      clock' r = clock r ∧ bound' r = bound r)
    (at_cpu : ∃ since?, Measured quantum (y.trace.onCpu cpu) since? ∧ Since clock' y cpu since?)
    (at_slot : q.Portioned quantum (bound' q) (y.trace.count .dispatched q.pid)
      (y.trace.count .expired q.pid)) : InSlices quantum clock' bound' y := by
  have elsewhere : ∀ s ≠ slot, y.procs[s]? = x.procs[s]? := fun s other => by
    rw [procs, List.getElem?_set_ne (Ne.symm other)]
  constructor
  case measured =>
    intro c
    by_cases here : c = cpu
    · rw [here]
      exact at_cpu
    obtain ⟨since?, measured, since⟩ := slices.measured c
    have unchanged : y.trace.onCpu c = x.trace.onCpu c :=
      grows.onCpu_eq fun e own elsewhere => here (elsewhere.symm.trans own.1)
    refine ⟨since?, unchanged ▸ measured, ?_⟩
    cases since? with
    | none => exact (held c here).trans since
    | some start =>
      obtain ⟨s, r, holds, found', pid, eq⟩ := since
      have other : s ≠ slot := by
        rintro rfl
        exact apart c here holds
      exact ⟨s, r, (held c here).trans holds, (elsewhere s other).trans found', pid,
        (others s r other found').1 ▸ eq⟩
  case portioned =>
    intro s r at_s
    by_cases here : s = slot
    · subst here
      rw [procs, List.getElem?_set_self (List.getElem?_eq_some_iff.1 found).1] at at_s
      obtain rfl := Option.some.inj at_s
      exact at_slot
    · rw [elsewhere s here] at at_s
      have unchanged : ∀ kind, y.trace.count kind r.pid = x.trace.count kind r.pid := fun kind =>
        grows.count_eq fun e own same => named.ne found at_s here (own.2.symm.trans same.2)
      rw [unchanged, unchanged, (others s r here at_s).2]
      exact slices.portioned s r at_s

/-- What is open on a processor. -/
theorem measured_of_idle (slices : InSlices quantum clock bound x) (free : x.held cpu = none) :
    Measured quantum (x.trace.onCpu cpu) none := by
  obtain ⟨since?, measured, since⟩ := slices.measured cpu
  cases since? with
  | none => exact measured
  | some start =>
    obtain ⟨s, r, holds, -⟩ := since
    rw [free] at holds
    cases holds

theorem measured_of_held (slices : InSlices quantum clock bound x) (holds : x.held cpu = some slot)
    (found : x.procs[slot]? = some p) : ∃ start, p.pid = start.pid ∧
      start.tick + p.sliceUsed = clock p ∧ Measured quantum (x.trace.onCpu cpu) (some start) := by
  obtain ⟨since?, measured, since⟩ := slices.measured cpu
  cases since? with
  | none =>
    have free : x.held cpu = none := since
    rw [free] at holds
    cases holds
  | some start =>
    obtain ⟨s, r, holds', found', pid, eq⟩ := since
    obtain rfl : s = slot := Option.some.inj (holds'.symm.trans holds)
    obtain rfl : r = p := Option.some.inj (found'.symm.trans found)
    exact ⟨start, pid, eq, measured⟩

theorem dispatch (slices : InSlices quantum (fun _ => x.now) (fun _ => b) x)
    (h : Matching x.held x.status?) (named : x.Named) (idle : x.isIdleAt cpu = true)
    (found : x.procs[slot]? = some p) (pending : p.status = .waiting ∨ p.status = .ready) :
    InSlices quantum (fun _ => x.now) (fun _ => b) (x.dispatch cpu slot) := by
  obtain ⟨inside, free⟩ := isIdleAt_iff.1 idle
  let e : Event := ⟨x.now, cpu, .dispatched, p.pid⟩
  have trace : (x.dispatch cpu slot).trace = x.trace.push e := by rw [dispatch_eq x cpu slot found]
  have portion := (slices.portioned slot p found).dispatch pending cpu x.now
  refine slices.change named cpu found (by rw [dispatch_eq x cpu slot found])
    (fun c other => held_dispatch_of_ne x cpu slot other) (fun c _ holds => ?_)
    (trace ▸ .push x.trace ⟨rfl, rfl⟩) (fun _ _ _ _ => ⟨rfl, rfl⟩) ⟨some e, ?_, ?_⟩ ?_
  · exact ProcessRecord.not_pending (h.running_of_held holds found) nofun nofun pending
  · rw [trace, Trace.onCpu_push, if_pos rfl]
    exact .start (slices.measured_of_idle free) rfl
  · refine ⟨slot, p.dispatch cpu x.now, ?_, getElem?_procs_dispatch found, rfl, rfl⟩
    rw [held_dispatch found inside, Function.update_self]
  · have pid : (p.dispatch cpu x.now).pid = p.pid := rfl
    have counted : Trace.count (x.trace.push e) .dispatched p.pid = _ := x.trace.count_push_self e
    rw [trace, pid, counted, x.trace.count_push_of_ne (by simp)]
    exact portion

theorem expire (slices : InSlices quantum (fun _ => x.now) (fun _ => quantum) x)
    (h : Matching x.held x.status?) (named : x.Named) (holds : x.held cpu = some slot)
    (found : x.procs[slot]? = some p) (used : ¬ p.sliceUsed < quantum) (notice : Log.Notice) :
    InSlices quantum (fun _ => x.now) (fun _ => quantum)
      (x.vacate cpu slot p .ready .expired notice) := by
  have running := h.running_of_held holds found
  have portion := slices.portioned slot p found
  -- no more than a quantum by the bound, no less by the test
  have whole : p.sliceUsed = quantum :=
    Nat.le_antisymm (portion.of_running running).2.2.2 (Nat.le_of_not_lt used)
  have held : (x.vacate cpu slot p .ready .expired notice).held = Function.update x.held cpu none :=
    held_vacate (held_lt holds)
  let e : Event := ⟨x.now, cpu, .expired, p.pid⟩
  obtain ⟨start, pid, begun, measured⟩ := slices.measured_of_held holds found
  refine slices.change named cpu found rfl (fun c other => ?_) (fun c other holds' => ?_)
    (.push x.trace ⟨rfl, rfl⟩) (fun _ _ _ _ => ⟨rfl, rfl⟩) ⟨none, ?_, ?_⟩ ?_
  · rw [held, Function.update_of_ne other]
  · exact other (Status.running.inj ((h.running_of_held holds' found).symm.trans running))
  · have pushed : (x.vacate cpu slot p .ready .expired notice).trace.onCpu cpu =
        x.trace.onCpu cpu ++ [e] := (Trace.onCpu_push x.trace e cpu).trans (by rw [if_pos rfl])
    rw [pushed]
    exact .finish measured ⟨pid, .inl ⟨rfl, by rw [← whole, begun]⟩⟩
  · exact (congrFun held cpu).trans (Function.update_self ..)
  · show ProcessRecord.Portioned quantum quantum (Trace.count (x.trace.push e) .dispatched p.pid)
      (Trace.count (x.trace.push e) .expired p.pid) { p with status := .ready }
    have counted : Trace.count (x.trace.push e) .expired p.pid = _ := x.trace.count_push_self e
    rw [counted, x.trace.count_push_of_ne (by simp)]
    exact portion.expire running whole

theorem rebound (slices : InSlices quantum clock bound x)
    (within : ∀ p ∈ x.procs, p.isRunning = true → p.sliceUsed ≤ bound' p) :
    InSlices quantum clock bound' x :=
  slices.map id (List.map_id _).symm rfl rfl fun _ p found => ⟨rfl, rfl, fun _ _ => rfl,
    fun _ _ portion => portion.rebound (within p (List.mem_of_getElem? found))⟩

/-! Up to the row of a tick. -/

theorem enrolled (slices : InSlices quantum (fun _ => now) (fun _ => b) m) :
    InSlices quantum (fun _ => now) (fun _ => b) m.enrolled := by
  refine slices.map _ m.procs_enrolled rfl rfl fun slot p found => ?_
  refine ⟨?_, ?_, fun _ _ => rfl, fun d e portion => portion.enroll m.policy.algorithm m.now⟩
  · exact congrArg (·.job.pid) (p.account_enroll m.policy.algorithm m.now)
  · rcases p.enroll_cases m.policy.algorithm m.now with same | ⟨-, -, ready⟩
    · rw [same]
    · rw [ready]

theorem endSlices (slices : InSlices quantum (fun _ => now) (fun _ => quantum) x)
    (h : Consistent x) (named : x.Named) (time : x.now = now) :
    InSlices quantum (fun _ => now) (fun _ => quantum) (x.endSlices quantum) := by
  have round : Consistent (x.endSlices quantum) ∧ (x.endSlices quantum).now = now ∧
      (x.endSlices quantum).jobs = x.jobs ∧
        InSlices quantum (fun _ => now) (fun _ => quantum) (x.endSlices quantum) := by
    refine atEachCpu_induction (P := fun _ y => Consistent y ∧ y.now = now ∧ y.jobs = x.jobs ∧
      InSlices quantum (fun _ => now) (fun _ => quantum) y) ⟨h, time, rfl, slices⟩ ?_
    rintro cpu y - ⟨hy, time, jobs, slices⟩
    have moves := moves_endSliceAt hy quantum cpu
    refine ⟨hy.moves moves, moves.now_eq.trans time,
      (jobs_eq_of_accounts_eq moves.accounts_eq).trans jobs, ?_⟩
    rcases endSliceAt_cases quantum cpu y with ⟨-, same⟩ | ⟨slot, p, ends, holds, found, -, ended⟩
    · rw [same]
      exact slices
    · obtain ⟨p', occupied, used⟩ := expiringAt_eq_some.1 ends
      obtain rfl : p = p' := Option.some.inj (found.symm.trans (occupant?_eq_some.1 occupied).2)
      have named' : y.Named := by rwa [Named, jobs]
      subst time
      rw [ended]
      exact (slices.expire hy.matching named' holds found used _).congr (procs_sendToQueue ..)
        (held_sendToQueue ..) (trace_sendToQueue ..)
  exact round.2.2.2

theorem occupyThese (slices : InSlices quantum (fun _ => now) (fun _ => b) x)
    (h : Consistent x) (named : x.Named) (time : x.now = now) (cpus : List Nat) :
    InSlices quantum (fun _ => now) (fun _ => b) (x.occupyThese cpus) := by
  refine occupyThese_induction (P := fun _ x y => Consistent x → x.Named → x.now = now →
    InSlices quantum (fun _ => now) (fun _ => b) x →
      InSlices quantum (fun _ => now) (fun _ => b) y) ?_ ?_ ?_ ?_ cpus x h named time slices
  · exact fun _ _ _ _ slices => slices
  · exact fun _ _ _ _ ih => ih
  · exact fun _ _ _ _ _ _ _ _ slices => slices.congr rfl rfl rfl
  · rintro cpu rest x slot idle chosen ih h named rfl slices
    obtain ⟨p, found, pending, -⟩ := pending_of_choose h chosen
    have assigned := moves_assign h idle chosen
    have chose : InSlices quantum (fun _ => x.choose.2.now) (fun _ => b) x.choose.2 :=
      slices.congr rfl rfl rfl
    refine ih (h.moves assigned) ?_ assigned.now_eq
      (chose.dispatch (h.moves (moves_choose x)).matching named idle found pending)
    rwa [Named, jobs_eq_of_accounts_eq assigned.accounts_eq]

/-! The work of a tick. -/

section WorkAt
variable (slices : InSlices (b + 1) (·.workClock now cpu) (·.workClock b cpu) x)
  (h : Consistent x)
include slices h

section Held
variable (holds : x.held cpu = some slot) (found : x.procs[slot]? = some p)
include holds found

/-- The slice of the occupant goes on, or its completion ends it within a quantum. -/
theorem measured_workAt (time : x.now = now) : ∃ since?,
    Measured (b + 1) ((Machine.workAt cpu x).trace.onCpu cpu) since? ∧
      Since (·.workClock now (cpu + 1)) (Machine.workAt cpu x) cpu since? := by
  have running := h.running_of_held holds found
  have within := (slices.portioned slot p found).of_running running |>.2.2.2
  obtain ⟨start, same_pid, begun, measured⟩ := slices.measured_of_held holds found
  rw [ProcessRecord.workClock_self running] at begun within
  have trace := trace_workAt holds found
  have held := held_workAt holds found
  rw [time] at trace
  by_cases last : p.remaining ≤ 1
  · rw [if_pos last] at trace held
    refine ⟨none, ?_, (congrFun held cpu).trans (Function.update_self ..)⟩
    rw [trace, Trace.onCpu_push, if_pos rfl]
    refine .finish measured ⟨same_pid, .inr ⟨rfl, ?_, ?_⟩⟩ <;> dsimp only <;> omega
  · rw [if_neg last] at trace held
    have pid : (p.work now).pid = p.pid := congrArg (·.pid) (p.toJob_work now)
    refine ⟨some start, trace ▸ measured, slot, p.work now, held ▸ holds, ?_,
      pid.trans same_pid, ?_⟩
    · rw [procs_workAt holds found, time,
        List.getElem?_set_self (List.getElem?_eq_some_iff.1 found).1]
    · have still : (p.work now).status = .running cpu := by
        rw [p.status_work, if_neg last, running]
      show start.tick + (p.work now).sliceUsed = (p.work now).workClock now (cpu + 1)
      rw [ProcessRecord.workClock_succ still, p.sliceUsed_work, ← begun, Nat.add_assoc]

/-- The occupant has used one more tick of its slice. -/
theorem portioned_workAt : (p.work now).Portioned (b + 1) ((p.work now).workClock b (cpu + 1))
    ((Machine.workAt cpu x).trace.count .dispatched (p.work now).pid)
    ((Machine.workAt cpu x).trace.count .expired (p.work now).pid) := by
  have running := h.running_of_held holds found
  have portion := slices.portioned slot p found
  rw [ProcessRecord.workClock_self running] at portion
  have pid : (p.work now).pid = p.pid := congrArg (·.pid) (p.toJob_work now)
  -- work is told by completions alone
  have uncounted : ∀ kind ≠ Event.Kind.completed,
      (Machine.workAt cpu x).trace.count kind p.pid = x.trace.count kind p.pid :=
    fun kind other => (grows_workAt x cpu).count_eq fun e done same =>
      other (same.1.symm.trans done.2)
  rw [pid, uncounted _ (by simp), uncounted _ (by simp)]
  refine (portion.work running (Nat.lt_succ_self b)).rebound fun runs => ?_
  have still := ProcessRecord.status_of_isRunning_work running runs
  rw [ProcessRecord.workClock_succ still, p.sliceUsed_work]
  exact Nat.succ_le_succ (portion.of_running running).2.2.2

end Held

theorem workAt (named : x.Named) (time : x.now = now) :
    InSlices (b + 1) (·.workClock now (cpu + 1)) (·.workClock b (cpu + 1)) (workAt cpu x) := by
  have others : ∀ (s : Nat) r, x.held cpu ≠ some s → x.procs[s]? = some r →
      r.workClock now (cpu + 1) = r.workClock now cpu ∧
        r.workClock b (cpu + 1) = r.workClock b cpu := fun _ _ other found =>
    ⟨h.workClock_of_ne found other now, h.workClock_of_ne found other b⟩
  cases holds : x.held cpu with
  | none =>
    have vacant := workAt_of_vacant (occupant?_eq_none holds)
    have held : (Machine.workAt cpu x).held = x.held := by rw [vacant, held_elapse]
    refine slices.map id ?_ held (by rw [vacant]) fun s r found => ?_
    · rw [vacant, List.map_id]
    · obtain ⟨clock, bound⟩ := others s r (by simp [holds]) found
      exact ⟨rfl, rfl, fun _ _ => clock, fun _ _ portion => bound.symm ▸ portion⟩
  | some slot =>
    obtain ⟨p, found, running⟩ := h.slot_lt_of_held holds
    have procs := procs_workAt holds found
    rw [time] at procs
    refine slices.change named cpu found procs (fun c other => ?_) (fun c other holds' => ?_) ?_
      (fun s r other found' => others s r (fun here => ?_) found')
      (slices.measured_workAt h holds found time) (slices.portioned_workAt h holds found)
    · rw [held_workAt holds found]
      split
      · exact Function.update_of_ne other ..
      · rfl
    · exact other (Status.running.inj ((h.running_of_held holds' found).symm.trans running))
    · rw [trace_workAt holds found]
      split
      · exact .push x.trace ⟨rfl, rfl⟩
      · exact .refl _ _
    · exact other (Option.some.inj (here.symm.trans holds))

end WorkAt

theorem work (slices : InSlices (b + 1) (fun _ => now) (fun _ => b) x) (h : Consistent x)
    (named : x.Named) (time : x.now = now) :
    InSlices (b + 1) (fun _ => now + 1) (fun _ => b + 1) x.work := by
  obtain ⟨consistent, -, -, round⟩ : Consistent x.work ∧ x.work.now = now ∧ x.work.jobs = x.jobs ∧
      InSlices (b + 1) (·.workClock now x.cpus.size) (·.workClock b x.cpus.size) x.work := by
    refine atEachCpu_induction (P := fun cpu y => Consistent y ∧ y.now = now ∧ y.jobs = x.jobs ∧
      InSlices (b + 1) (·.workClock now cpu) (·.workClock b cpu) y)
      ⟨h, time, rfl, ?_⟩ ?_
    · rwa [ProcessRecord.workClock_zero, ProcessRecord.workClock_zero]
    rintro cpu y - ⟨hy, time, jobs, slices⟩
    exact ⟨hy.workAt cpu, (now_workAt y cpu).trans time, (jobs_workAt y cpu).trans jobs,
      slices.workAt hy (by rwa [Named, jobs]) time⟩
  -- after the last processor the clocks of all who run have gone on, and no other clock is read
  rw [← size_cpus_work] at round
  refine round.map id (List.map_id _).symm rfl rfl fun slot p found =>
    ⟨rfl, rfl, fun cpu holds => ?_, fun _ _ portion => portion.rebound fun running => ?_⟩
  · have running := consistent.matching.running_of_held holds found
    have runs : p.isRunning = true := ProcessRecord.isRunning_iff.2 ⟨cpu, running⟩
    exact (consistent.workClock_size found runs now).symm
  · obtain ⟨cpu, at_cpu⟩ := ProcessRecord.isRunning_iff.1 running
    rw [consistent.workClock_size found running] at portion
    exact (portion.of_running at_cpu).2.2.2

theorem ageWaiting (slices : InSlices quantum (fun _ => now) (fun _ => b) x) :
    InSlices quantum (fun _ => now) (fun _ => b) x.ageWaiting := by
  refine slices.map (·.ageWaiting x.now) rfl rfl rfl fun slot p found => ?_
  refine ⟨congrArg (·.pid) (p.toJob_ageWaiting x.now), ?_, fun _ _ => rfl,
    fun d e portion => portion.ageWaiting x.now⟩
  show (p.ageWaiting x.now).sliceUsed = p.sliceUsed
  unfold ProcessRecord.ageWaiting
  split <;> rfl

section Tick
variable {queue : ReadyQueue} (slices : InSlices (b + 1) (fun _ => m.now) (fun _ => b + 1) m)
  (rest : AtRest m) (policy : m.policy = .roundRobin (b + 1) queue) (named : m.Named)
include slices rest policy named

/-- The processes that kept their processors have not used up their slices: those that had, have
left in this tick. -/
theorem rescheduled :
    InSlices (b + 1) (fun _ => m.now) (fun _ => b) m.rescheduled := by
  have arrived : InSlices (b + 1) (fun _ => m.now) (fun _ => b + 1) m.enqueued :=
    slices.enrolled.congr (foldl_sendToQueue_keeps procs_sendToQueue ..)
      (foldl_sendToQueue_keeps held_sendToQueue ..) (foldl_sendToQueue_keeps trace_sendToQueue ..)
  have accounts := (Moves.accounts_eq rest.moves_enqueued).trans m.accounts_enrolled
  rw [rescheduled_eq_endSlices policy]
  refine (arrived.endSlices rest.consistent_enqueued ?_ ?_).rebound ?_
  · rwa [Named, jobs_eq_of_accounts_eq accounts]
  · exact foldl_sendToQueue_keeps now_sendToQueue ..
  intro q member running
  rw [procs_endSlices rest.consistent_enqueued] at member
  obtain ⟨p, -, rfl⟩ := List.mem_map.1 member
  by_cases runs : p.isRunning
  · rw [if_pos runs] at running ⊢
    exact Nat.le_of_lt_succ (ProcessRecord.sliceUsed_endSlice_lt running)
  · rw [if_neg runs] at running
    exact absurd running runs

theorem step : InSlices (b + 1) (fun _ => m.step.now) (fun _ => b + 1) m.step := by
  have occupied : InSlices (b + 1) (fun _ => m.now) (fun _ => b) m.occupied := by
    have moves : Moves m.enrolled m.rescheduled :=
      rest.moves_enqueued.trans (moves_rescheduled rest.consistent_enqueued)
    have accounts := (Moves.accounts_eq moves).trans m.accounts_enrolled
    refine (slices.rescheduled rest policy named).occupyThese rest.consistent_rescheduled ?_
      (Moves.now_eq moves : m.rescheduled.now = m.enrolled.now) _
    rwa [Named, jobs_eq_of_accounts_eq accounts]
  have aged : InSlices (b + 1) (fun _ => m.now) (fun _ => b) m.aged :=
    (occupied.congr (y := m.shown) rfl rfl rfl).ageWaiting
  have worked := aged.work rest.consistent_aged (by rwa [Named, rest.jobs_aged]) rest.now_occupied
  rw [rest.now_step]
  exact worked.congr rfl rfl rfl

theorem steps (n : Nat) :
    InSlices (b + 1) (fun _ => (m.steps n).now) (fun _ => b + 1) (m.steps n) := by
  induction n with
  | zero => exact slices
  | succ n ih =>
    obtain ⟨later, policy'⟩ := rest.policy_steps policy n
    rw [steps_succ]
    exact ih.step (rest.steps n) policy' (by rwa [Named, rest.jobs_steps])

end Tick

end InSlices

/-! Runs. -/

theorem inSlices_begun (d : Discipline) (s : Scenario) (bursts : ∀ job ∈ s.jobs, 0 < job.burst) :
    InSlices quantum (fun _ => (begun d s).now) (fun _ => quantum) (begun d s) where
  measured cpu := ⟨none, .nil, held_boot s d.policy cpu⟩
  portioned slot p found := by
    have member := List.mem_of_getElem? found
    obtain ⟨job, listed, rfl⟩ := List.mem_map.1 (show p ∈ s.jobs.map Job.toRecord from member)
    have whole : 0 * quantum + job.burst = job.burst := by rw [Nat.zero_mul, Nat.zero_add]
    exact .off (.inl rfl) rfl whole (bursts job listed)

/-- In turns of a quantum, what follows a dispatch on a processor is that the same process is done
or its quantum has expired, and a quantum expires just when it is used up. Nobody is preempted. If
no two processes share an identifier, whoever completes has been dispatched as often as its burst
takes quanta, the last of them perhaps in part, and all but the last have expired. -/
theorem turns_take_exact_slices (s : Scenario) (bursts : ∀ job ∈ s.jobs, 0 < job.burst)
    (named : (s.jobs.map (·.pid)).Nodup) (quantum : Nat) (some_time : 0 < quantum) :
    let o := simulate ⟨.roundRobin, quantum⟩ s
    (∀ (cpu i : Nat) (e e' : Event), (o.machine.trace.onCpu cpu)[i]? = some e →
        (o.machine.trace.onCpu cpu)[i + 1]? = some e' → e.kind = .dispatched →
        e'.EndsSlice quantum e) ∧
      (∀ e ∈ o.machine.trace, e.kind ≠ .preempted) ∧
      ∀ p ∈ o.machine.procs, p.status = .completed →
        o.machine.trace.count .dispatched p.pid = (p.burst + quantum - 1) / quantum ∧
          o.machine.trace.count .expired p.pid = (p.burst + quantum - 1) / quantum - 1 := by
  obtain ⟨b, rfl⟩ := Nat.exists_eq_succ_of_ne_zero (Nat.ne_of_gt some_time)
  let d : Discipline := ⟨.roundRobin, b + 1⟩
  obtain ⟨k, -, outcome, -⟩ := simulate_eq d s
  have rest := atRest_begun d s
  have slices := (inSlices_begun d s bursts).steps rest rfl (by rwa [Named, jobs_begun]) k
  rw [outcome]
  refine ⟨fun cpu i e e' found next kind => ?_, fun e member => ?_, fun p member done => ?_⟩
  · obtain ⟨_, measured, -⟩ := slices.measured cpu
    exact measured.endsSlice found next kind
  · obtain ⟨_, measured, -⟩ := slices.measured e.cpu
    refine measured.kind_ne_preempted e (List.mem_filter.2 ⟨?_, beq_self_eq_true _⟩)
    exact Array.mem_toList_iff.2 member
  · obtain ⟨slot, found⟩ := List.mem_iff_getElem?.1 member
    exact (slices.portioned slot p found).counts_of_completed done

/-- A burst of two quanta, and one that uses up its second quantum only in part. -/
def evenAndOdd : Scenario :=
  { cpus := 2, cpus_pos := Nat.two_pos, jobs := [⟨1, 0, 4, 0⟩, ⟨2, 0, 3, 0⟩, ⟨3, 1, 2, 0⟩] }

/-- The first process has moved to the other processor for its second slice. -/
theorem turns_take_exact_slices_moved :
    let o := simulate ⟨.roundRobin, 2⟩ evenAndOdd
    (∀ job ∈ evenAndOdd.jobs, 0 < job.burst) ∧ (evenAndOdd.jobs.map (·.pid)).Nodup ∧ 0 < 2 ∧
      (o.machine.trace.onCpu 1).map (fun e => (e.tick, e.kind, e.pid)) =
        [(0, .dispatched, 2), (2, .expired, 2), (2, .dispatched, 1), (4, .completed, 1)] ∧
      (∀ e ∈ o.machine.trace, e.kind ≠ .preempted) ∧
      o.machine.trace.count .dispatched 1 = 2 ∧ o.machine.trace.count .expired 1 = 1 := by
  intro o
  have bursts : ∀ job ∈ evenAndOdd.jobs, 0 < job.burst := by decide
  have named : (evenAndOdd.jobs.map (·.pid)).Nodup := by decide
  obtain ⟨p, member, pid, done, burst⟩ : ∃ p ∈ o.machine.procs, p.pid = 1 ∧
      p.status = .completed ∧ p.burst = 4 := by decide +kernel
  obtain ⟨-, unforced, counts⟩ :=
    turns_take_exact_slices evenAndOdd bursts named 2 Nat.two_pos
  have counted := counts p member done
  rw [pid, burst] at counted
  exact ⟨bursts, named, Nat.two_pos, by decide +kernel, unforced, counted⟩

end Machine
end CpuScheduling
