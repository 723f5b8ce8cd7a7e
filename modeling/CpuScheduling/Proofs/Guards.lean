import CpuScheduling.Proofs.Table
import CpuScheduling.Statistics
/-!
Guards. Every operation of a run that presupposes something stands here once more, with what it
presupposes checked: that a place is inside its table, that a difference is not less than nothing,
that the clock shows a sum, that who is dispatched is neither running nor finished. A checked
operation stops at the first fault, and without a fault it does what the plain one does.
-/
namespace CpuScheduling

/-- What a checked operation stops at. -/
inductive Fault where
  /-- A slot behind the end of the process table. -/
  | noSlot (slot : Nat)
  /-- A processor behind the last one. -/
  | noCpu (cpu : Nat)
  /-- A row that ends behind the end of the buffer. -/
  | noRow (tick : Nat)
  /-- A row with more or fewer cells than there are processors. -/
  | rowWidth (cells : Nat)
  /-- A dispatch of a process that runs or has finished. -/
  | dispatchedTwice (pid : Int)
  /-- A unit of work for a process that needs none. -/
  | noWorkLeft (pid : Int)
  /-- A difference that is less than nothing. -/
  | underflow (a b : Nat)
  /-- A sum behind the last tick. -/
  | overflow (a b : Nat)
deriving DecidableEq

/-- The result of a checked operation. -/
abbrev Checked := Except Fault

namespace Checked

def require (condition : Bool) (fault : Fault) : Checked Unit :=
  if condition then pure () else throw fault

/-- What was looked up, if it was found. -/
def found {α : Type} (entry : Option α) (fault : Fault) : Checked α :=
  match entry with
  | some a => pure a
  | none => throw fault

def sub (a b : Nat) : Checked Nat := if b ≤ a then pure (a - b) else throw (.underflow a b)

def add (a b : Nat) : Checked Nat :=
  if a + b ≤ lastTick then pure (a + b) else throw (.overflow a b)

theorem require_of {condition : Bool} (holds : condition = true) (fault : Fault) :
    require condition fault = pure () := if_pos holds

theorem sub_of_le {a b : Nat} (le : b ≤ a) : sub a b = pure (a - b) := if_pos le

theorem add_of_le {a b : Nat} (le : a + b ≤ lastTick) : add a b = pure (a + b) := if_pos le

variable {α β σ : Type}

@[simp] theorem found_some (a : α) (fault : Fault) : found (some a) fault = pure a := rfl

theorem mapM_option_eq {f : α → Checked β} {g : α → β} {o : Option α}
    (each : ∀ a, o = some a → f a = pure (g a)) : o.mapM f = pure (o.map g) := by
  cases o with
  | none => rfl
  | some a => rw [Option.mapM_some, each a rfl, map_pure, Option.map_some]

theorem mapM_found {o : Option α} {look : α → Option β} {fault : α → Fault}
    (there : ∀ a, o = some a → (look a).isSome) :
    (o.mapM fun a => found (look a) (fault a)) = pure (o.bind look) := by
  cases o with
  | none => rfl
  | some a =>
    obtain ⟨b, looked_up⟩ := Option.isSome_iff_exists.1 (there a rfl)
    rw [Option.mapM_some, looked_up, found_some, map_pure, Option.bind_some, looked_up]

/-- A loop whose invariant lets every round pass without a fault. -/
theorem foldlM_eq {f : σ → α → Checked σ} {g : σ → α → σ} (P : σ → Prop) {l : List α} {s : σ}
    (start : P s) (round : ∀ x, P x → ∀ a ∈ l, f x a = pure (g x a) ∧ P (g x a)) :
    l.foldlM f s = pure (l.foldl g s) := by
  induction l generalizing s with
  | nil => rfl
  | cons a l ih =>
    obtain ⟨passes, kept⟩ := round s start a List.mem_cons_self
    rw [List.foldlM_cons, passes, pure_bind, List.foldl_cons]
    exact ih kept fun x hx b member => round x hx b (List.mem_cons_of_mem a member)

end Checked

open Checked (require require_of found sub_of_le add_of_le)

namespace ProcessRecord

def checkedDispatch (cpu now : Nat) (p : ProcessRecord) : Checked ProcessRecord := do
  require (!p.isRunning && !p.isCompleted) (.dispatchedTwice p.pid)
  let delay ← Checked.sub now p.arrival
  pure { p with
    status := .running cpu
    sliceUsed := 0
    start := p.start.or (some now)
    response := if p.start.isNone then some delay else p.response }

def checkedWork (now : Nat) (p : ProcessRecord) : Checked ProcessRecord := do
  require (0 < p.remaining) (.noWorkLeft p.pid)
  let remaining ← Checked.sub p.remaining 1
  let sliceUsed ← Checked.add p.sliceUsed 1
  if remaining = 0 then
    let finish ← Checked.add now 1
    pure { p with remaining, sliceUsed, status := .completed, finish := some finish }
  else pure { p with remaining, sliceUsed }

def checkedAgeWaiting (now : Nat) (p : ProcessRecord) : Checked ProcessRecord :=
  if p.arrivedBy now && !p.isCompleted && !p.isRunning then do
    let waited ← Checked.add p.waited 1
    pure { p with waited }
  else pure p

def checkedTurnaround (p : ProcessRecord) : Checked (Option Nat) :=
  p.finish.mapM fun finish => Checked.sub finish p.arrival

variable {cpu now : Nat} {p : ProcessRecord}

theorem checkedDispatch_eq (off : p.isRunning = false) (unfinished : p.isCompleted = false)
    (arrived : p.arrival ≤ now) : p.checkedDispatch cpu now = pure (p.dispatch cpu now) := by
  have fresh : (!p.isRunning && !p.isCompleted) = true := by simp [off, unfinished]
  simp only [checkedDispatch, require_of fresh, sub_of_le arrived, pure_bind, dispatch]

theorem checkedWork_eq (work_left : 0 < p.remaining) (slice : p.sliceUsed < lastTick)
    (clock : now < lastTick) : p.checkedWork now = pure (p.work now) := by
  have left : Checked.sub p.remaining 1 = pure (p.remaining - 1) := sub_of_le work_left
  have used : Checked.add p.sliceUsed 1 = pure (p.sliceUsed + 1) := add_of_le slice
  have finish : Checked.add now 1 = pure (now + 1) := add_of_le clock
  simp only [checkedWork, require_of (decide_eq_true work_left), left, used, finish, pure_bind, work]
  split <;> rfl

theorem checkedAgeWaiting_eq (clock : p.isCompleted = false → p.waited < lastTick) :
    p.checkedAgeWaiting now = pure (p.ageWaiting now) := by
  unfold checkedAgeWaiting ageWaiting
  split
  next waits =>
    have unfinished : p.isCompleted = false := by simp_all
    rw [add_of_le (clock unfinished), pure_bind]
  next => rfl

theorem checkedTurnaround_eq (later : ∀ finish, p.finish = some finish → p.arrival ≤ finish) :
    p.checkedTurnaround = pure p.turnaround :=
  Checked.mapM_option_eq fun finish ends => sub_of_le (later finish ends)

end ProcessRecord

namespace Cpu

def checkedElapse (c : Cpu) : Checked Cpu :=
  if c.isIdle then do
    let idle ← Checked.add c.idle 1
    pure { c with idle }
  else do
    let busy ← Checked.add c.busy 1
    pure { c with busy }

/-- The busy share of the elapsed ticks, of which there must not be too many to be added up. -/
def checkedUtilization (c : Cpu) : Checked Float := do
  let total ← Checked.add c.busy c.idle
  pure (if total = 0 then 0 else 100 * c.busy.toUInt64.toFloat / total.toUInt64.toFloat)

variable {c : Cpu}

theorem checkedElapse_eq (clock : c.busy + c.idle < lastTick) :
    c.checkedElapse = pure c.elapse := by
  have idle : Checked.add c.idle 1 = pure (c.idle + 1) := add_of_le (by omega)
  have busy : Checked.add c.busy 1 = pure (c.busy + 1) := add_of_le (by omega)
  simp only [checkedElapse, elapse, idle, busy, pure_bind]
  split <;> rfl

theorem checkedUtilization_eq (clock : c.busy + c.idle ≤ lastTick) :
    c.checkedUtilization = pure c.utilization := by
  simp only [checkedUtilization, add_of_le clock, pure_bind, utilization]

end Cpu

/-- The row of a tick, whose cells must be as many as the processors and lie in the buffer once it
has grown. -/
def Timeline.checkedWrite (t : Timeline) (tick : Nat) (row : List Cell) : Checked Timeline := do
  require (tick * t.width + t.width ≤ (t.grow tick).buffer.size) (.noRow tick)
  require (row.length = t.width) (.rowWidth row.length)
  pure (t.write tick row)

theorem Timeline.checkedWrite_eq {t : Timeline} {row : List Cell} (full : row.length = t.width)
    (tick : Nat) : t.checkedWrite tick row = pure (t.write tick row) := by
  have room : tick < (t.grow tick).capacity := lt_grownCapacity tick t.capacity_pos
  have inside : tick * t.width + t.width ≤ (t.grow tick).buffer.size := row_le_size room
  simp only [checkedWrite, require_of (decide_eq_true inside), require_of (decide_eq_true full),
    pure_bind]

namespace Trace

def Tally.checkedNote (t : Tally) (e : Event) : Checked Tally :=
  match e.kind with
  | .dispatched => pure { t with since := some e.tick }
  | .preempted | .expired | .completed =>
    match t.since with
    | some start => do
      let spent ← Checked.sub e.tick start
      let total ← Checked.add t.total spent
      pure { total, since := none }
    | none => pure t

def checkedCpuTime (trace : Trace) (pid : Int) : Checked Nat := do
  let tally ← trace.foldlM (fun tally e => if e.pid = pid then tally.checkedNote e else pure tally)
    ({} : Tally)
  pure tally.total

/-- What a tally of events up to a tick says: the closed intervals have room before the open one,
which has begun. -/
structure Tally.UpTo (t : Tally) (tick : Nat) : Prop where
  total_le : t.total ≤ tick
  since : ∀ start, t.since = some start → t.total ≤ start ∧ start ≤ tick

theorem Tally.UpTo.note {t : Tally} {latest : Nat} {e : Event} (upto : t.UpTo latest)
    (later : latest ≤ e.tick) (clock : e.tick ≤ lastTick) :
    t.checkedNote e = pure (t.note e) ∧ (t.note e).UpTo e.tick := by
  have total := upto.total_le
  have closes : ∀ start, t.since = some start →
      Checked.sub e.tick start = pure (e.tick - start) ∧
      Checked.add t.total (e.tick - start) = pure (t.total + (e.tick - start)) ∧
      t.total + (e.tick - start) ≤ e.tick := by
    intro start opened
    obtain ⟨before, started⟩ := upto.since start opened
    exact ⟨sub_of_le (by omega), add_of_le (by omega), by omega⟩
  unfold Tally.checkedNote Tally.note
  cases e.kind with
  | dispatched =>
    refine ⟨rfl, by dsimp only; omega, fun start opened => ?_⟩
    cases opened
    exact ⟨by dsimp only; omega, Nat.le_refl _⟩
  | preempted | expired | completed =>
    cases opened : t.since with
    | none => exact ⟨rfl, by dsimp only; omega, by simp [opened]⟩
    | some start =>
      obtain ⟨difference, sum, bound⟩ := closes start opened
      simp only [difference, sum, pure_bind, true_and]
      exact ⟨bound, nofun⟩

theorem foldlM_checkedNote {events : List Event} {t : Tally} {latest : Nat} (upto : t.UpTo latest)
    (sorted : events.Pairwise fun a b => a.tick ≤ b.tick) (later : ∀ e ∈ events, latest ≤ e.tick)
    (clock : ∀ e ∈ events, e.tick ≤ lastTick) (pid : Int) :
    events.foldlM (fun tally e => if e.pid = pid then tally.checkedNote e else pure tally) t =
      pure (events.foldl (fun tally e => if e.pid = pid then tally.note e else tally) t) := by
  induction events generalizing t latest with
  | nil => rfl
  | cons e events ih =>
    obtain ⟨first, sorted⟩ := List.pairwise_cons.1 sorted
    have clock' : ∀ e' ∈ events, e'.tick ≤ lastTick := fun e' member =>
      clock e' (List.mem_cons_of_mem e member)
    rw [List.foldlM_cons, List.foldl_cons]
    split
    · obtain ⟨noted, upto⟩ := upto.note (later e List.mem_cons_self) (clock e List.mem_cons_self)
      rw [noted, pure_bind]
      exact ih upto sorted first clock'
    · rw [pure_bind]
      exact ih upto sorted (fun e' member => later e' (List.mem_cons_of_mem e member)) clock'

theorem checkedCpuTime_eq {trace : Trace}
    (sorted : trace.toList.Pairwise fun a b => a.tick ≤ b.tick)
    (clock : ∀ e ∈ trace.toList, e.tick ≤ lastTick) (pid : Int) :
    trace.checkedCpuTime pid = pure (trace.cpuTime pid) := by
  have fresh : ({} : Tally).UpTo 0 := ⟨Nat.le_refl 0, nofun⟩
  have tallied := foldlM_checkedNote fresh sorted (fun _ _ => Nat.zero_le _) clock pid
  simp only [checkedCpuTime, cpuTime, ← Array.foldlM_toList, ← Array.foldl_toList, tallied,
    pure_bind]

end Trace

/-- The record of the process that a processor holds. -/
def Selection.checkedOccupant (procs : List ProcessRecord) (c : Cpu) :
    Checked (Option ProcessRecord) :=
  c.current.mapM fun slot => found procs[slot]? (.noSlot slot)

/-- Those of some occupants who have more than `remaining` ticks left, with their processors. -/
def Selection.victimsAmong (occupants : List (Option ProcessRecord)) (remaining : Nat) :
    List (ProcessRecord × Nat) :=
  occupants.zipIdx.filterMap fun e =>
    e.1.bind fun p => if remaining < p.remaining then some (p, e.2) else none

theorem Selection.victimsAmong_occupants (cpus : List Cpu) (procs : List ProcessRecord)
    (remaining : Nat) :
    victimsAmong (cpus.map (occupant? procs)) remaining = victims cpus procs remaining := by
  rw [victimsAmong, List.zipIdx_map, List.filterMap_map]
  rfl

namespace Machine

/-- The slot that a processor holds, and its process. -/
def checkedOccupant (m : Machine) (cpu : Nat) : Checked (Option (Nat × ProcessRecord)) := do
  let c ← found m.cpus[cpu]? (.noCpu cpu)
  c.current.mapM fun slot => found (m.procs[slot]?.map fun p => (slot, p)) (.noSlot slot)

def checkedDispatch (cpu slot : Nat) (m : Machine) : Checked Machine := do
  let c ← found m.cpus[cpu]? (.noCpu cpu)
  let p ← found m.procs[slot]? (.noSlot slot)
  let dispatched ← p.checkedDispatch cpu m.now
  pure { m with
    procs := m.procs.set slot dispatched
    cpus := m.cpus.modify cpu fun _ => c.assign slot
    trace := m.trace.push ⟨m.now, cpu, .dispatched, p.pid⟩
    journal := m.journal.add (.dispatched p.pid cpu p.remaining) }

def checkedSendToQueue (m : Machine) (slot : Nat) : Checked Machine :=
  match m.policy.enqueue? slot with
  | some (.ok policy) => pure { m with policy }
  | some (.error e) => do
    let p ← found m.procs[slot]? (.noSlot slot)
    pure { m with dropped := m.dropped + 1, journal := m.journal.add (.enqueueRefused p.pid e) }
  | none => pure m

def checkedEndSliceAt (quantum cpu : Nat) (m : Machine) : Checked Machine := do
  match ← m.checkedOccupant cpu with
  | none => pure m
  | some (slot, p) =>
    if p.sliceUsed < quantum then pure m
    else (m.vacate cpu slot p .ready .expired (.quantumExpired p.pid cpu)).checkedSendToQueue slot

/-- A checked move made at each processor in turn. -/
def checkedAtEachCpu (move : Nat → Machine → Checked Machine) (m : Machine) : Checked Machine :=
  (List.range m.cpus.size).foldlM (fun m cpu => move cpu m) m

def checkedEvict (cpu : Nat) (victor : Int) (m : Machine) : Checked Machine := do
  match ← m.checkedOccupant cpu with
  | none => pure m
  | some (slot, p) => pure (m.vacate cpu slot p .waiting .preempted (.preempted p.pid cpu victor))

/-- Where the process in a slot may run; without an idle processor all occupants are looked at. -/
def checkedPlaceFor (m : Machine) (slot : Nat) : Checked (Option Nat) :=
  match m.cpus.toList.findIdx? (·.isIdle) with
  | some cpu => pure (some cpu)
  | none => do
    let p ← found m.procs[slot]? (.noSlot slot)
    let occupants ← m.cpus.toList.mapM (Selection.checkedOccupant m.procs)
    let victims := Selection.victimsAmong occupants p.remaining
    pure ((Selection.best Selection.yieldsBefore victims).map (·.2))

def checkedPreemption (m : Machine) : Checked (Option (Nat × ProcessRecord × Nat)) :=
  match Selection.challenger? m.procs m.now with
  | none => pure none
  | some slot => do
    let p ← found m.procs[slot]? (.noSlot slot)
    let place ← m.checkedPlaceFor slot
    pure (place.map fun cpu => (slot, p, cpu))

def checkedPreemptAtMost : Nat → Machine → Checked Machine
  | 0, m => pure m
  | n + 1, m => do
    match ← m.checkedPreemption with
    | none => pure m
    | some (slot, p, cpu) =>
      let evicted ← m.checkedEvict cpu p.pid
      let preempted ← evicted.checkedDispatch cpu slot
      checkedPreemptAtMost n preempted

def checkedReschedule (arrived : List Nat) (m : Machine) : Checked Machine :=
  match m.policy with
  | .roundRobin quantum _ => do
    let enqueued ← arrived.foldlM checkedSendToQueue m
    enqueued.checkedAtEachCpu (checkedEndSliceAt quantum)
  | .srtf => checkedPreemptAtMost m.readyCount m
  | .fcfs | .sjf => pure m

def checkedOccupyThese : List Nat → Machine → Checked Machine
  | [], m => pure m
  | cpu :: rest, m => do
    let c ← found m.cpus[cpu]? (.noCpu cpu)
    if c.isIdle then
      match m.choose.1 with
      | none => pure m.choose.2
      | some slot => do
        let assigned ← m.choose.2.checkedDispatch cpu slot
        checkedOccupyThese rest assigned
    else checkedOccupyThese rest m

def checkedSnapshot (m : Machine) : Checked Machine := do
  let occupants ← m.cpus.toList.mapM (Selection.checkedOccupant m.procs)
  let timeline ← m.timeline.checkedWrite m.now (occupants.map fun occupant => occupant.map (·.pid))
  let notices := growthNotices m.timeline.capacity timeline.capacity
  pure { m with timeline, journal := m.journal.addAll notices }

def checkedAgeWaiting (m : Machine) : Checked Machine := do
  let procs ← m.procs.mapM (·.checkedAgeWaiting m.now)
  pure { m with procs }

def checkedRetire (cpu : Nat) (p : ProcessRecord) (m : Machine) : Checked Machine := do
  let tick ← Checked.add m.now 1
  pure { m with
    cpus := m.cpus.modify cpu Cpu.release
    trace := m.trace.push ⟨tick, cpu, .completed, p.pid⟩
    completed := m.completed + 1
    journal := m.journal.add (.completed p.pid cpu) }

def checkedWorkAt (cpu : Nat) (m : Machine) : Checked Machine := do
  let c ← found m.cpus[cpu]? (.noCpu cpu)
  let elapsed ← c.checkedElapse
  match ← m.checkedOccupant cpu with
  | none => pure { m with cpus := m.cpus.modify cpu fun _ => elapsed }
  | some (slot, p) =>
    let worked ← p.checkedWork m.now
    let after := { m with
      procs := m.procs.set slot worked, cpus := m.cpus.modify cpu fun _ => elapsed }
    if worked.isSpent then after.checkedRetire cpu p else pure after

def checkedAdvance (m : Machine) : Checked Machine := do
  let now ← Checked.add m.now 1
  pure { m with now }

def checkedStep (m : Machine) : Checked Machine := do
  let ready ← (m.stamped.enroll m.policy.algorithm).checkedReschedule m.arriving
  let occupied ← ready.checkedOccupyThese (List.range ready.cpus.size)
  let shown ← occupied.checkedSnapshot
  let aged ← shown.checkedAgeWaiting
  let worked ← aged.checkedAtEachCpu checkedWorkAt
  worked.checkedAdvance

def checkedRunAtMost : Nat → Machine → Checked Machine
  | 0, m => pure m
  | n + 1, m =>
    if m.allFinished then pure m
    else do
      let next ← m.checkedStep
      checkedRunAtMost n next

end Machine

def checkedSimulate (d : Discipline) (s : Scenario) : Checked Outcome := do
  let started := (Machine.boot s d.policy).say (.runStarted d.algorithm s.cpus s.jobs.length)
  let ended ← started.checkedRunAtMost s.bound
  pure { discipline := d, machine := ended.conclude s.bound, ending := ended.ending s.bound }

def ProcessStatistics.checkedOfRecord (p : ProcessRecord) : Checked ProcessStatistics := do
  let turnaround ← p.checkedTurnaround
  pure { p.toJob with
    start := p.start
    finish := p.finish
    turnaround
    waiting := turnaround.map (· - p.burst)
    response := p.response
    accruedWaiting := p.waited }

def CpuStatistics.checkedOfCpu (cpu : Nat) (c : Cpu) : Checked CpuStatistics := do
  let utilization ← c.checkedUtilization
  pure { cpu, busy := c.busy, idle := c.idle, utilization }

def Statistics.checkedOfOutcome (o : Outcome) : Checked Statistics := do
  let processes ← o.machine.procs.mapM ProcessStatistics.checkedOfRecord
  let cpus ← o.machine.cpus.toList.zipIdx.mapM fun e => CpuStatistics.checkedOfCpu e.2 e.1
  let averages := Averages.ofProcesses processes
  pure {
    processes
    cpus
    averages := if 0 < averages.completed then some averages else none
    totalTicks := o.totalTicks }

end CpuScheduling
