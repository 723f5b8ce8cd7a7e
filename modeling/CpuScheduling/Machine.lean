import CpuScheduling.Log.Journal
import CpuScheduling.Policy
import CpuScheduling.Scenario
import CpuScheduling.Trace
/-!
The machine: the process table, the processors, the policy, and all that a run records. Its small
moves are here: placing a process on a processor, taking it off, and sending it to the queue. A
process and the processor that holds it always change together.
-/
namespace CpuScheduling

structure Machine where
  procs : List ProcessRecord
  cpus : Array Cpu
  policy : Policy
  timeline : Timeline
  trace : Trace := #[]
  now : Nat := 0
  /-- Processes that have finished. -/
  completed : Nat := 0
  /-- Slots that the full queue refused. -/
  dropped : Nat := 0
  journal : Log.Journal := {}

namespace Machine

/-- The machine before the first tick. -/
def boot (s : Scenario) (policy : Policy) : Machine where
  procs := ProcessTable.ofJobs s.jobs
  cpus := Array.replicate s.cpus {}
  policy
  timeline := .empty s.cpus defaultTimelineCapacity

def allFinished (m : Machine) : Bool := decide (m.procs.length ≤ m.completed)

def say (n : Log.Notice) (m : Machine) : Machine := { m with journal := m.journal.add n }

/-- The slot that a processor holds, and its process. -/
def occupant? (m : Machine) (cpu : Nat) : Option (Nat × ProcessRecord) :=
  (m.cpus[cpu]?.bind (·.current)).bind fun slot => m.procs[slot]?.map fun p => (slot, p)

/-- A process put on a processor. -/
def dispatch (cpu slot : Nat) (m : Machine) : Machine :=
  match m.procs[slot]? with
  | none => m
  | some p =>
    { m with
      procs := m.procs.set slot (p.dispatch cpu m.now)
      cpus := m.cpus.modify cpu (·.assign slot)
      trace := m.trace.push ⟨m.now, cpu, .dispatched, p.pid⟩
      journal := m.journal.add (.dispatched p.pid cpu p.remaining) }

/-- The occupant of a processor taken off it and left in `status`, for a reason that is recorded. -/
def vacate (cpu slot : Nat) (p : ProcessRecord) (status : Status) (kind : Event.Kind)
    (notice : Log.Notice) (m : Machine) : Machine :=
  { m with
    procs := m.procs.set slot { p with status }
    cpus := m.cpus.modify cpu Cpu.release
    trace := m.trace.push ⟨m.now, cpu, kind, p.pid⟩
    journal := m.journal.add notice }

/-- A slot sent to the rear of the queue; what a full queue refuses is counted and lost. -/
def sendToQueue (m : Machine) (slot : Nat) : Machine :=
  match m.policy.enqueue? slot, m.procs[slot]? with
  | some (.ok policy), _ => { m with policy }
  | some (.error e), some p =>
    { m with dropped := m.dropped + 1, journal := m.journal.add (.enqueueRefused p.pid e) }
  | _, _ => m

end Machine
end CpuScheduling
