import CpuScheduling.Machine
/-!
The phases of a tick, each a function on machines: arrivals are enrolled, used-up quanta expire or
shorter jobs preempt, idle processors are filled, the occupancy is recorded, waiting accrues, and
every busy processor does one unit of work. Phases that visit processors do so in ascending order.
-/
namespace CpuScheduling.Machine

/-- A move made at each processor in turn. -/
def atEachCpu (move : Nat → Machine → Machine) (m : Machine) : Machine :=
  (List.range m.cpus.size).foldl (fun m cpu => move cpu m) m

/-- The slots of the processes that arrive now. -/
def arriving (m : Machine) : List Nat :=
  (m.procs.zipIdx.filter fun e => e.1.arrival == m.now).map (·.2)

/-- The arrivals of this tick are noticed, and become ready if the algorithm marks them so. -/
def enroll (algorithm : Algorithm) (m : Machine) : Machine :=
  { m with
    procs := if algorithm.marksReady then m.procs.map (·.becomeReady m.now) else m.procs
    journal := m.journal.addAll
      ((m.procs.filter (·.arrival == m.now)).map fun p => .arrived p.pid) }

/-- The occupant of one processor goes back to the queue if it has used up a quantum. -/
def endSliceAt (quantum cpu : Nat) (m : Machine) : Machine :=
  match m.occupant? cpu with
  | none => m
  | some (slot, p) =>
    if p.sliceUsed < quantum then m
    else (m.vacate cpu slot p .ready .expired (.quantumExpired p.pid cpu)).sendToQueue slot

def endSlices (quantum : Nat) (m : Machine) : Machine := m.atEachCpu (endSliceAt quantum)

/-- The occupant of one processor, if any, makes room for a shorter process. -/
def evict (cpu : Nat) (victor : Int) (m : Machine) : Machine :=
  match m.occupant? cpu with
  | none => m
  | some (slot, p) => m.vacate cpu slot p .waiting .preempted (.preempted p.pid cpu victor)

/-- The process that would preempt first and the processor it would take, if there are both. -/
def preemption? (m : Machine) : Option (Nat × ProcessRecord × Nat) := do
  let slot ← Selection.challenger? m.procs m.now
  let p ← m.procs[slot]?
  let cpu ← Selection.placeFor? m.cpus.toList m.procs slot
  pure (slot, p, cpu)

/-- Preemptions one after another, `n` at most. -/
def preemptAtMost : Nat → Machine → Machine
  | 0, m => m
  | n + 1, m =>
    match m.preemption? with
    | none => m
    | some (slot, p, cpu) => preemptAtMost n ((m.evict cpu p.pid).dispatch cpu slot)

/-- The arrived processes in status ready. -/
def readyCount (m : Machine) : Nat :=
  m.procs.countP fun p => decide (p.status = .ready) && p.arrivedBy m.now

/-- Preemptions until none is possible; each uses up one ready process. -/
def preempt (m : Machine) : Machine := preemptAtMost m.readyCount m

/-- The choice of the policy, which is thereby made. -/
def choose (m : Machine) : Option Nat × Machine :=
  let (slot, policy) := m.policy.next m.procs m.now
  (slot, { m with policy })

/-- Whether a processor is there and holds no process. -/
def isIdleAt (m : Machine) (cpu : Nat) : Bool := m.cpus[cpu]?.any (·.isIdle)

/-- The idle ones among some processors get the choices of the policy, until it has none. -/
def occupyThese : List Nat → Machine → Machine
  | [], m => m
  | cpu :: rest, m =>
    if m.isIdleAt cpu then
      match m.choose with
      | (none, chosen) => chosen
      | (some slot, chosen) => occupyThese rest (chosen.dispatch cpu slot)
    else occupyThese rest m

def occupyIdle (m : Machine) : Machine := m.occupyThese (List.range m.cpus.size)

/-- What each processor runs now. -/
def occupancy (m : Machine) : List Cell :=
  m.cpus.toList.map fun c => (Selection.occupant? m.procs c).map (·.pid)

/-- What is said when the capacity of a timeline has changed. -/
def growthNotices (before after : Nat) : List Log.Notice :=
  if before = after then [] else [.timelineGrown before after]

/-- The occupancy becomes the row of this tick. -/
def snapshot (m : Machine) : Machine :=
  let before := m.timeline.capacity
  let timeline := m.timeline.write m.now m.occupancy
  { m with timeline, journal := m.journal.addAll (growthNotices before timeline.capacity) }

/-- Every arrived, unfinished process on no processor waits one more tick. -/
def ageWaiting (m : Machine) : Machine :=
  { m with procs := m.procs.map (·.ageWaiting m.now) }

/-- The occupant of one processor has done its last unit of work. -/
def retire (cpu : Nat) (p : ProcessRecord) (m : Machine) : Machine :=
  { m with
    cpus := m.cpus.modify cpu Cpu.release
    trace := m.trace.push ⟨m.now + 1, cpu, .completed, p.pid⟩
    completed := m.completed + 1
    journal := m.journal.add (.completed p.pid cpu) }

/-- One tick of one processor: its occupant works, and leaves when it is spent. -/
def workAt (cpu : Nat) (m : Machine) : Machine :=
  match m.occupant? cpu with
  | none => { m with cpus := m.cpus.modify cpu Cpu.elapse }
  | some (slot, p) =>
    let worked := p.work m.now
    let after :=
      { m with procs := m.procs.set slot worked, cpus := m.cpus.modify cpu Cpu.elapse }
    if worked.isSpent then after.retire cpu p else after

def work (m : Machine) : Machine := m.atEachCpu workAt

end CpuScheduling.Machine
