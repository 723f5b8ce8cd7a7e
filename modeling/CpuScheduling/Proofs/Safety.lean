import CpuScheduling.Proofs.Guards
import CpuScheduling.Proofs.Loads
import CpuScheduling.Proofs.Replay
import CpuScheduling.Proofs.Slices
/-!
Safety. In a run whose bursts are positive no guard ever fails: from the arrivals of a tick to the
end of the run, and in what is computed from it afterwards, every checked operation passes.
-/
namespace CpuScheduling

open Checked (add_of_le)

theorem modify_const {cpus : Array Cpu} {cpu : Nat} {c : Cpu} (at_cpu : cpus[cpu]? = some c)
    (change : Cpu → Cpu) : cpus.modify cpu (fun _ => change c) = cpus.modify cpu change := by
  apply Array.ext_getElem?
  intro i
  simp only [Array.getElem?_modify]
  split
  next here => simp [← here, at_cpu]
  next => rfl

namespace Machine
variable {m : Machine} {cpu slot : Nat} {p : ProcessRecord}

theorem Consistent.isSome_of_held (h : Consistent m) (holds : m.held cpu = some slot) :
    m.procs[slot]?.isSome := by
  obtain ⟨p, at_slot, -⟩ := h.slot_lt_of_held holds
  rw [at_slot, Option.isSome_some]

theorem checkedOccupant_eq (inside : cpu < m.cpus.size)
    (there : ∀ slot, m.held cpu = some slot → m.procs[slot]?.isSome) :
    m.checkedOccupant cpu = pure (m.occupant? cpu) := by
  have at_cpu : m.cpus[cpu]? = some m.cpus[cpu] := Array.getElem?_eq_getElem inside
  rw [checkedOccupant, occupant?, at_cpu, Checked.found_some, pure_bind, Option.bind_some]
  refine Checked.mapM_found fun slot current => ?_
  rw [Option.isSome_map]
  exact there slot (by simp [held, at_cpu, current])

theorem Consistent.checkedOccupant_eq (h : Consistent m) (inside : cpu < m.cpus.size) :
    m.checkedOccupant cpu = pure (m.occupant? cpu) :=
  Machine.checkedOccupant_eq inside fun _ => h.isSome_of_held

theorem checkedDispatch_eq (inside : cpu < m.cpus.size) (at_slot : m.procs[slot]? = some p)
    (pending : p.status = .waiting ∨ p.status = .ready) (arrived : p.arrival ≤ m.now) :
    m.checkedDispatch cpu slot = pure (m.dispatch cpu slot) := by
  have at_cpu : m.cpus[cpu]? = some m.cpus[cpu] := Array.getElem?_eq_getElem inside
  have off : p.isRunning = false := by
    rcases pending with stands | stands <;> simp [ProcessRecord.isRunning, stands]
  have unfinished : p.isCompleted = false := by
    rcases pending with stands | stands <;> simp [ProcessRecord.isCompleted, stands]
  have placed : p.checkedDispatch cpu m.now = pure (p.dispatch cpu m.now) :=
    ProcessRecord.checkedDispatch_eq off unfinished arrived
  simp only [checkedDispatch, at_cpu, at_slot, Checked.found_some, placed, pure_bind,
    dispatch_eq m cpu slot at_slot, modify_const at_cpu (·.assign slot)]

theorem checkedSendToQueue_eq (at_slot : m.procs[slot]? = some p) :
    m.checkedSendToQueue slot = pure (m.sendToQueue slot) := by
  rw [checkedSendToQueue, sendToQueue, at_slot]
  cases m.policy.enqueue? slot with
  | none => rfl
  | some asked => cases asked <;> rfl

theorem Consistent.checkedEndSliceAt_eq (h : Consistent m) (inside : cpu < m.cpus.size)
    (quantum : Nat) : checkedEndSliceAt quantum cpu m = pure (endSliceAt quantum cpu m) := by
  rw [checkedEndSliceAt, h.checkedOccupant_eq inside, pure_bind, endSliceAt]
  cases occupied : m.occupant? cpu with
  | none => rfl
  | some entry =>
    obtain ⟨slot, p⟩ := entry
    obtain ⟨-, at_slot⟩ := occupant?_eq_some.1 occupied
    dsimp only
    split
    · rfl
    · exact checkedSendToQueue_eq (List.getElem?_set_self (List.getElem?_eq_some_iff.1 at_slot).1)

theorem Consistent.checkedEvict_eq (h : Consistent m) (inside : cpu < m.cpus.size)
    (victor : Int) : m.checkedEvict cpu victor = pure (m.evict cpu victor) := by
  rw [checkedEvict, h.checkedOccupant_eq inside, pure_bind, evict]
  cases m.occupant? cpu <;> rfl

theorem Consistent.checkedOccupants_eq (h : Consistent m) :
    m.cpus.toList.mapM (Selection.checkedOccupant m.procs) =
      pure (m.cpus.toList.map (Selection.occupant? m.procs)) := by
  refine mapM_eq fun c member => ?_
  obtain ⟨cpu, at_cpu⟩ := List.mem_iff_getElem?.1 member
  rw [Array.getElem?_toList] at at_cpu
  refine Checked.mapM_found fun slot current => ?_
  have holds : m.held cpu = some slot := by simp [held, at_cpu, current]
  exact h.isSome_of_held holds

theorem Consistent.checkedPlaceFor_eq (h : Consistent m) (at_slot : m.procs[slot]? = some p) :
    m.checkedPlaceFor slot = pure (Selection.placeFor? m.cpus.toList m.procs slot) := by
  unfold checkedPlaceFor Selection.placeFor?
  cases first : m.cpus.toList.findIdx? (·.isIdle) with
  | some cpu => rfl
  | none =>
    rw [at_slot, Checked.found_some, pure_bind, h.checkedOccupants_eq, pure_bind,
      Selection.victimsAmong_occupants]
    dsimp only
    rw [Option.map_eq_bind]
    rfl

theorem Consistent.checkedPreemption_eq (h : Consistent m) :
    m.checkedPreemption = pure m.preemption? := by
  unfold checkedPreemption preemption?
  cases challenger : Selection.challenger? m.procs m.now with
  | none => rfl
  | some slot =>
    obtain ⟨p, at_slot, -⟩ := Selection.challenger?_eq_some challenger
    dsimp only
    rw [at_slot, Checked.found_some, pure_bind, h.checkedPlaceFor_eq at_slot, pure_bind]
    cases place : Selection.placeFor? m.cpus.toList m.procs slot <;> simp [at_slot, place]

theorem Consistent.checkedPreemptAtMost_eq (h : Consistent m) (no_queue : m.policy.queue? = none)
    (n : Nat) : checkedPreemptAtMost n m = pure (preemptAtMost n m) := by
  induction n generalizing m with
  | zero => rfl
  | succ n ih =>
    rw [checkedPreemptAtMost, h.checkedPreemption_eq, pure_bind, preemptAtMost]
    cases preempts : m.preemption? with
    | none => rfl
    | some round =>
      obtain ⟨slot, p, cpu⟩ := round
      obtain ⟨evicted, idle, at_slot, -⟩ := moves_evict h.matching preempts p.pid
      obtain ⟨-, ready, arrived, inside, -⟩ := preemption?_eq_some preempts
      have preempted := h.moves (moves_preempted h no_queue preempts)
      have policy : ((m.evict cpu p.pid).dispatch cpu slot).policy.queue? = none := by
        rw [policy_preempted h.matching preempts, no_queue]
      dsimp only
      rw [h.checkedEvict_eq inside, pure_bind,
        checkedDispatch_eq (isIdleAt_iff.1 idle).1 at_slot (.inr ready) (evicted.now_eq ▸ arrived),
        pure_bind, ih preempted policy]

theorem Consistent.checkedOccupyThese_eq {cpus : List Nat} (h : Consistent m)
    (inside : ∀ cpu ∈ cpus, cpu < m.cpus.size) :
    m.checkedOccupyThese cpus = pure (m.occupyThese cpus) := by
  induction cpus generalizing m with
  | nil => rfl
  | cons cpu rest ih =>
    have here := inside cpu List.mem_cons_self
    have later : ∀ c ∈ rest, c < m.cpus.size := fun c member =>
      inside c (List.mem_cons_of_mem cpu member)
    have at_cpu : m.cpus[cpu]? = some m.cpus[cpu] := Array.getElem?_eq_getElem here
    have idle_iff : m.isIdleAt cpu = m.cpus[cpu].isIdle := by simp [isIdleAt, at_cpu]
    rw [checkedOccupyThese, at_cpu, Checked.found_some, pure_bind]
    cases idle : m.isIdleAt cpu with
    | false =>
      rw [occupyThese_cons_of_busy rest idle, if_neg (by simp [← idle_iff, idle]), ih h later]
    | true =>
      rw [if_pos (by rw [← idle_iff, idle])]
      cases chosen : m.choose.1 with
      | none =>
        rw [occupyThese_cons_of_no_choice rest idle chosen]
      | some slot =>
        obtain ⟨p, at_slot, pending, arrived, -⟩ := pending_of_choose h chosen
        have assigned := moves_assign h idle chosen
        rw [occupyThese_cons_of_choice rest idle chosen]
        dsimp only
        rw [checkedDispatch_eq (m := m.choose.2) here at_slot pending arrived, pure_bind]
        exact ih (h.moves assigned) (assigned.size_cpus_eq ▸ later)

theorem Consistent.checkedSnapshot_eq (h : Consistent m) (width : m.timeline.width = m.cpus.size) :
    m.checkedSnapshot = pure m.snapshot := by
  have row : (m.cpus.toList.map (Selection.occupant? m.procs)).map (fun occupant =>
      occupant.map (·.pid)) = m.occupancy := List.map_map
  have full : m.occupancy.length = m.timeline.width := m.length_occupancy.trans width.symm
  simp only [checkedSnapshot, h.checkedOccupants_eq, row, Timeline.checkedWrite_eq full, pure_bind,
    snapshot]

theorem checkedAgeWaiting_eq
    (clock : ∀ p ∈ m.procs, p.isCompleted = false → p.waited < lastTick) :
    m.checkedAgeWaiting = pure m.ageWaiting := by
  have each : ∀ p ∈ m.procs, p.checkedAgeWaiting m.now = pure (p.ageWaiting m.now) :=
    fun p member => ProcessRecord.checkedAgeWaiting_eq (clock p member)
  simp only [checkedAgeWaiting, mapM_eq each, pure_bind, ageWaiting]

theorem checkedRetire_eq (clock : m.now < lastTick) (cpu : Nat) (p : ProcessRecord) :
    m.checkedRetire cpu p = pure (m.retire cpu p) := by
  have tick : Checked.add m.now 1 = pure (m.now + 1) := add_of_le clock
  simp only [checkedRetire, tick, pure_bind, retire]

/-- A loop over the processors whose invariant lets every visit pass without a fault. -/
theorem checkedAtEachCpu_eq {move : Nat → Machine → Machine}
    {checked : Nat → Machine → Checked Machine} (P : Nat → Machine → Prop) (start : P 0 m)
    (visit : ∀ cpu x, cpu < m.cpus.size → P cpu x →
      checked cpu x = pure (move cpu x) ∧ P (cpu + 1) (move cpu x)) :
    m.checkedAtEachCpu checked = pure (m.atEachCpu move) := by
  have upto : ∀ n ≤ m.cpus.size,
      (List.range n).foldlM (fun x cpu => checked cpu x) m =
        pure ((List.range n).foldl (fun x cpu => move cpu x) m) ∧
      P n ((List.range n).foldl (fun x cpu => move cpu x) m) := by
    intro n bound
    induction n with
    | zero => exact ⟨rfl, start⟩
    | succ n ih =>
      obtain ⟨passes, kept⟩ := ih (Nat.le_of_succ_le bound)
      obtain ⟨next, kept'⟩ := visit n _ bound kept
      rw [List.range_succ, List.foldlM_append, passes, pure_bind, List.foldl_append]
      refine ⟨?_, kept'⟩
      rw [List.foldlM_cons, next, pure_bind]
      rfl
  exact (upto _ (Nat.le_refl _)).1

theorem checkedWorkAt_eq (inside : cpu < m.cpus.size) (clock : m.now < lastTick)
    (short : ∀ load, m.load cpu = some load → load.1 + load.2 < lastTick)
    (able : ∀ slot, m.held cpu = some slot → ∃ p, m.procs[slot]? = some p ∧ 0 < p.remaining ∧
      p.sliceUsed < lastTick) :
    checkedWorkAt cpu m = pure (workAt cpu m) := by
  have at_cpu : m.cpus[cpu]? = some m.cpus[cpu] := Array.getElem?_eq_getElem inside
  have elapses : m.cpus[cpu].checkedElapse = pure m.cpus[cpu].elapse :=
    Cpu.checkedElapse_eq (short _ (by rw [load, at_cpu, Option.map_some]))
  have there : ∀ slot, m.held cpu = some slot → m.procs[slot]?.isSome := fun slot holds => by
    obtain ⟨p, at_slot, -⟩ := able slot holds
    rw [at_slot, Option.isSome_some]
  simp only [checkedWorkAt, at_cpu, Checked.found_some, elapses, checkedOccupant_eq inside there,
    pure_bind, modify_const at_cpu Cpu.elapse, workAt]
  cases occupied : m.occupant? cpu with
  | none => rfl
  | some entry =>
    obtain ⟨slot, p⟩ := entry
    obtain ⟨holds, at_slot⟩ := occupant?_eq_some.1 occupied
    obtain ⟨q, at_slot', work_left, slice⟩ := able slot holds
    obtain rfl : p = q := Option.some.inj (at_slot.symm.trans at_slot')
    dsimp only
    rw [ProcessRecord.checkedWork_eq work_left slice clock, pure_bind]
    split
    · refine checkedRetire_eq ?_ cpu p
      exact clock
    · rfl

/-- The work of a tick in which every running process has work left and no count is at its end. -/
theorem Consistent.checkedWork_eq (h : Consistent m) (clock : m.now < lastTick)
    (short : ∀ cpu load, m.load cpu = some load → load.1 + load.2 < lastTick)
    (able : ∀ p ∈ m.procs, p.isRunning = true → 0 < p.remaining ∧ p.sliceUsed < lastTick) :
    m.checkedAtEachCpu checkedWorkAt = pure m.work := by
  -- a processor that is still to be visited, and what it holds, is as it was before the round
  refine checkedAtEachCpu_eq (fun n x => HalfVisited ProcessRecord.work m n x ∧
    x.cpus.size = m.cpus.size ∧ ∀ cpu, n ≤ cpu → x.load cpu = m.load cpu)
    ⟨.start m, rfl, fun _ _ => rfl⟩ ?_
  rintro cpu x inside ⟨half, size, loads⟩
  refine ⟨checkedWorkAt_eq (size ▸ inside) (half.now ▸ clock) ?_ ?_, half.next h visits_workAt,
    (size_cpus_workAt x cpu).trans size, fun c later => ?_⟩
  · rw [loads cpu (Nat.le_refl cpu)]
    exact short cpu
  · intro slot holds
    rw [half.held cpu (Nat.le_refl cpu)] at holds
    obtain ⟨p, at_slot, running⟩ := h.slot_lt_of_held holds
    exact ⟨p, half.found h holds at_slot, able p (List.mem_of_getElem? at_slot)
      (ProcessRecord.isRunning_iff.2 ⟨cpu, running⟩)⟩
  · rw [load_workAt, if_neg (Nat.ne_of_lt later), loads c (Nat.le_of_succ_le later)]

theorem AtRest.checkedReschedule_eq (rest : AtRest m) :
    m.enrolled.checkedReschedule m.arriving = pure m.rescheduled := by
  have same_policy : m.enrolled.policy = m.policy := rfl
  rw [checkedReschedule, rescheduled, reschedule, same_policy]
  cases policy : m.policy with
  | fcfs | sjf => rfl
  | srtf =>
    refine rest.enrolled.checkedPreemptAtMost_eq ?_ _
    rw [same_policy, policy]
    rfl
  | roundRobin quantum queue =>
    have enqueues : m.arriving.foldlM checkedSendToQueue m.enrolled = pure m.enqueued := by
      refine Checked.foldlM_eq (fun x => x.procs = m.enrolled.procs) rfl ?_
      intro x same slot member
      obtain ⟨p, at_slot, -⟩ := mem_arriving.1 member
      have there : x.procs[slot]? = some (p.enroll m.policy.algorithm m.now) := by
        rw [same, procs_enrolled, List.getElem?_map, at_slot, Option.map_some]
      exact ⟨checkedSendToQueue_eq there, (procs_sendToQueue x slot).trans same⟩
    dsimp only
    rw [enqueues, pure_bind]
    refine checkedAtEachCpu_eq (fun _ x => Consistent x ∧ x.cpus.size = m.enqueued.cpus.size)
      ⟨rest.consistent_enqueued, rfl⟩ ?_
    rintro cpu x inside ⟨hx, size⟩
    have moves := moves_endSliceAt hx quantum cpu
    exact ⟨hx.checkedEndSliceAt_eq (size ▸ inside) quantum, hx.moves moves,
      moves.size_cpus_eq.trans size⟩

/-- What holds of a machine between two ticks of a run whose bursts are positive. -/
structure Sound (m : Machine) : Prop extends AtRest m where
  balanced : m.Balanced
  sliced : ∀ p ∈ m.procs, p.Sliced
  charted : Charted m
  told : Told m
  loads : ∀ cpu load, m.load cpu = some load → load.1 + load.2 = m.now

namespace Sound

theorem step (sound : Sound m) : Sound m.step where
  toAtRest := sound.toAtRest.step
  balanced := Balanced.step sound.toAtRest sound.balanced
  sliced := sound.toAtRest.forall_procs_step ProcessRecord.lasting_sliced sound.sliced sound.balanced
  charted := sound.charted.step sound.toAtRest
  told := sound.told.step sound.toAtRest
  loads cpu load counted := by
    rw [sound.now_step]
    exact sound.load_steps (sound.loads cpu) 1 load counted

/-- An unfinished process has work left, and has neither waited nor used of its slice more ticks
than have passed. -/
theorem counts_le (sound : Sound m) (member : p ∈ m.occupied.procs)
    (going : p.isCompleted = false) :
    0 < p.remaining ∧ p.waited ≤ m.now ∧ p.sliceUsed ≤ m.now := by
  have account : p.account ∈ m.accounts := by
    rw [← sound.accounts_occupied]
    exact List.mem_map_of_mem member
  obtain ⟨work_left, -, balance⟩ := (sound.balanced _ account).unfinished going
  change p.waited + (p.burst - p.remaining) = m.now - p.arrival at balance
  have used : p.sliceUsed + p.remaining ≤ p.burst :=
    sound.forall_procs_occupied ProcessRecord.lasting_sliced.toSteadfast sound.sliced p member
  exact ⟨work_left, by omega, by omega⟩

/-! The phases of a tick, one after another. -/

theorem checkedOccupyThese_eq (sound : Sound m) :
    m.rescheduled.checkedOccupyThese (List.range m.rescheduled.cpus.size) = pure m.occupied :=
  sound.consistent_rescheduled.checkedOccupyThese_eq fun _ => List.mem_range.1

theorem checkedSnapshot_eq (sound : Sound m) : m.occupied.checkedSnapshot = pure m.shown := by
  refine sound.consistent_occupied.checkedSnapshot_eq ?_
  rw [sound.moves_occupied.timeline_eq, sound.moves_occupied.size_cpus_eq]
  exact sound.charted.width

theorem checkedAgeWaiting_eq (sound : Sound m) (clock : m.now < lastTick) :
    m.shown.checkedAgeWaiting = pure m.aged :=
  Machine.checkedAgeWaiting_eq fun _ member going =>
    (sound.counts_le member going).2.1.trans_lt clock

theorem checkedWork_eq (sound : Sound m) (clock : m.now < lastTick) :
    m.aged.checkedAtEachCpu checkedWorkAt = pure m.worked := by
  have now : m.aged.now = m.now := sound.now_occupied
  refine sound.consistent_aged.checkedWork_eq (now ▸ clock) ?_ ?_
  · intro cpu load counted
    have before : m.occupied.load = m.load := sound.moves_occupied.load_eq
    have sum := sound.loads cpu load (before ▸ counted)
    omega
  · intro q member running
    obtain ⟨p, at_row, rfl⟩ := List.mem_map.1 member
    obtain ⟨cpu, at_cpu⟩ := ProcessRecord.isRunning_iff.1 running
    rw [ProcessRecord.status_ageWaiting] at at_cpu
    -- a running process does not wait, so this tick has not changed it yet
    have same : p.ageWaiting m.shown.now = p := by
      simp [ProcessRecord.ageWaiting, ProcessRecord.isRunning, at_cpu]
    have going : p.isCompleted = false := by simp [ProcessRecord.isCompleted, at_cpu]
    obtain ⟨work_left, -, slice⟩ := sound.counts_le at_row going
    rw [same]
    exact ⟨work_left, slice.trans_lt clock⟩

theorem checkedAdvance_eq (sound : Sound m) (clock : m.now < lastTick) :
    m.worked.checkedAdvance = pure m.step := by
  have now : m.worked.now = m.now := (now_work sound.consistent_aged).trans sound.now_occupied
  rw [checkedAdvance, now, add_of_le clock, pure_bind, step_eq, advance, now]

theorem checkedStep_eq (sound : Sound m) (clock : m.now < lastTick) :
    m.checkedStep = pure m.step := by
  have rescheduled : (m.stamped.enroll m.policy.algorithm).checkedReschedule m.arriving =
      pure m.rescheduled := sound.checkedReschedule_eq
  simp only [checkedStep, rescheduled, sound.checkedOccupyThese_eq, sound.checkedSnapshot_eq,
    sound.checkedAgeWaiting_eq clock, sound.checkedWork_eq clock, sound.checkedAdvance_eq clock,
    pure_bind]

theorem checkedRunAtMost_eq (sound : Sound m) {n : Nat} (clock : m.now + n ≤ lastTick) :
    checkedRunAtMost n m = pure (runAtMost n m) := by
  induction n generalizing m with
  | zero => rfl
  | succ n ih =>
    unfold checkedRunAtMost runAtMost
    split
    · rfl
    · rw [sound.checkedStep_eq (by omega), pure_bind]
      refine ih sound.step ?_
      rw [sound.now_step]
      omega

end Sound

theorem sound_begun (d : Discipline) (s : Scenario) (bursts : ∀ job ∈ s.jobs, 0 < job.burst) :
    Sound (begun d s) where
  toAtRest := atRest_begun d s
  balanced := balanced_begun d s bursts
  sliced := sliced_boot s d.policy
  charted := charted_begun d s
  told := told_boot s d.policy
  loads _ := load_begun d s

theorem Sound.steps (sound : Sound m) (n : Nat) : Sound (m.steps n) := by
  induction n with
  | zero => exact sound
  | succ n ih => rw [steps_succ]; exact ih.step

end Machine

theorem Statistics.checkedOfOutcome_eq {o : Outcome} {m : Machine} (sound : Machine.Sound m)
    (procs : o.machine.procs = m.procs) (cpus : o.machine.cpus = m.cpus)
    (clock : m.now ≤ lastTick) : checkedOfOutcome o = pure (ofOutcome o) := by
  have records : o.machine.procs.mapM ProcessStatistics.checkedOfRecord =
      pure (o.machine.procs.map ProcessStatistics.ofRecord) := by
    refine mapM_eq fun p member => ?_
    rw [procs] at member
    have later : ∀ finish, p.finish = some finish → p.arrival ≤ finish := fun finish ends => by
      have whole := (sound.balanced.finish_eq member ends).1
      omega
    rw [ProcessStatistics.checkedOfRecord, ProcessRecord.checkedTurnaround_eq later, pure_bind]
    rfl
  have loads : (o.machine.cpus.toList.zipIdx.mapM fun e => CpuStatistics.checkedOfCpu e.2 e.1) =
      pure (o.machine.cpus.toList.zipIdx.map fun e => CpuStatistics.ofCpu e.2 e.1) := by
    refine mapM_eq ?_
    rintro ⟨c, cpu⟩ member
    have at_cpu := List.mk_mem_zipIdx_iff_getElem?.1 member
    rw [cpus, Array.getElem?_toList] at at_cpu
    have counted := sound.loads cpu (c.busy, c.idle) (by rw [Machine.load, at_cpu, Option.map_some])
    dsimp only at counted ⊢
    rw [CpuStatistics.checkedOfCpu, Cpu.checkedUtilization_eq (by omega), pure_bind]
    rfl
  rw [checkedOfOutcome, records, pure_bind, loads, pure_bind]
  rfl

/-- A run never faults, nor do its statistics and the time that any identifier was given: every
checked operation does what the plain one does, whatever the arrivals, identifiers, algorithm and
quantum, if no burst is zero and the clock can show the limit. -/
theorem Machine.run_without_fault (d : Discipline) (s : Scenario)
    (bursts : ∀ job ∈ s.jobs, 0 < job.burst)
    (clock : ∀ limit, s.limit = some limit → limit ≤ lastTick) :
    let o := simulate d s
    checkedSimulate d s = .ok o ∧
      Statistics.checkedOfOutcome o = .ok (.ofOutcome o) ∧
      ∀ pid, o.machine.trace.checkedCpuTime pid = .ok (o.machine.trace.cpuTime pid) := by
  have sound := Machine.sound_begun d s bursts
  have inside := Scenario.bound_le clock
  obtain ⟨k, upto, outcome, -⟩ := Machine.simulate_eq d s
  have later := sound.steps k
  have now : ((Machine.begun d s).steps k).now ≤ lastTick := by
    rw [sound.now_steps k]
    exact (Nat.zero_add k).trans_le (upto.trans inside)
  refine ⟨?_, ?_, fun pid => ?_⟩
  · have started : (Machine.begun d s).now + s.bound ≤ lastTick :=
      (Nat.zero_add s.bound).trans_le inside
    show ((Machine.begun d s).checkedRunAtMost s.bound >>= _) = _
    rw [sound.checkedRunAtMost_eq started, pure_bind]
    rfl
  · rw [outcome]
    exact Statistics.checkedOfOutcome_eq later rfl rfl now
  · have past : ∀ e ∈ ((Machine.begun d s).steps k).trace.toList, e.tick ≤ lastTick :=
      fun e member => (later.told.past e member).trans now
    rw [outcome]
    exact Trace.checkedCpuTime_eq later.told.sorted past pid

/-- Three processes of one identifier take turns on two processors. -/
theorem Machine.run_without_fault_shared :
    let s : Scenario :=
      { cpus := 2, cpus_pos := by decide, jobs := [⟨1, 0, 3, 0⟩, ⟨1, 1, 1, 0⟩, ⟨1, 1, 2, 0⟩],
        limit := some 6 }
    let o := simulate ⟨.roundRobin, 1⟩ s
    (∀ job ∈ s.jobs, 0 < job.burst) ∧ (∀ limit, s.limit = some limit → limit ≤ lastTick) ∧
      checkedSimulate ⟨.roundRobin, 1⟩ s = .ok o ∧ o.ending = .completed ∧
      Statistics.checkedOfOutcome o = .ok (.ofOutcome o) ∧
      o.machine.trace.checkedCpuTime 1 = .ok 4 := by
  intro s o
  have bursts : ∀ job ∈ s.jobs, 0 < job.burst := by decide
  have clock : ∀ limit, s.limit = some limit → limit ≤ lastTick := by
    rintro limit ⟨⟩
    decide
  obtain ⟨run, statistics, time⟩ := Machine.run_without_fault ⟨.roundRobin, 1⟩ s bursts clock
  have four : o.machine.trace.cpuTime 1 = 4 := by decide +kernel
  exact ⟨bursts, clock, run, by decide +kernel, statistics, four ▸ time 1⟩

/-- A job without work is dispatched, and then has no unit of work to do. -/
example :
    let s : Scenario := { cpus := 1, cpus_pos := by decide, jobs := [⟨7, 0, 0, 0⟩] }
    (match checkedSimulate ⟨.fcfs, 2⟩ s with
      | .ok _ => none
      | .error fault => some fault) = some (.noWorkLeft 7) := by decide +kernel

end CpuScheduling
