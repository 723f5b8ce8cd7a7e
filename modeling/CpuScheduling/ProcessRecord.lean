import CpuScheduling.Job
/-!
The record of a process during a run: its job, the work left, where it stands, and the times that
the reports show. Start and response are fixed by the first dispatch, the finish by the last unit
of work.
-/
namespace CpuScheduling

/-- Where a process stands. -/
inductive Status where
  /-- Not chosen yet, or evicted by a shorter job. -/
  | waiting
  /-- Queued, or a candidate for preemption. -/
  | ready
  | running (cpu : Nat)
  | completed
deriving DecidableEq

structure ProcessRecord extends Job where
  /-- Ticks of work left. -/
  remaining : Nat
  status : Status := .waiting
  start : Option Nat := none
  /-- The end of the tick that did the last unit of work. -/
  finish : Option Nat := none
  /-- Ticks spent arrived, unfinished and on no processor. -/
  waited : Nat := 0
  /-- Ticks run since the last dispatch. -/
  sliceUsed : Nat := 0
  response : Option Nat := none
deriving DecidableEq

/-- The record of a job before any tick. -/
def Job.toRecord (j : Job) : ProcessRecord := { j with remaining := j.burst }

namespace ProcessRecord

def arrivedBy (p : ProcessRecord) (now : Nat) : Bool := decide (p.arrival ≤ now)

def isRunning (p : ProcessRecord) : Bool :=
  match p.status with
  | .running _ => true
  | .waiting | .ready | .completed => false

def isCompleted (p : ProcessRecord) : Bool := decide (p.status = .completed)

/-- Placed on a processor with a fresh slice. -/
def dispatch (cpu : Nat) (now : Nat) (p : ProcessRecord) : ProcessRecord :=
  { p with
    status := .running cpu
    sliceUsed := 0
    start := p.start.or (some now)
    response := if p.start.isNone then some (now - p.arrival) else p.response }

/-- One unit of work, which ends at `now + 1`. -/
def work (now : Nat) (p : ProcessRecord) : ProcessRecord :=
  let worked := { p with remaining := p.remaining - 1, sliceUsed := p.sliceUsed + 1 }
  if worked.remaining = 0 then { worked with status := .completed, finish := some (now + 1) }
  else worked

/-- Whether no work is left. -/
def isSpent (p : ProcessRecord) : Bool := p.remaining == 0

/-- Ready from now on if it was waiting and arrives now. -/
def becomeReady (now : Nat) (p : ProcessRecord) : ProcessRecord :=
  if p.arrival = now ∧ p.status = .waiting then { p with status := .ready } else p

/-- One more tick of waiting for a process that could have run and did not. -/
def ageWaiting (now : Nat) (p : ProcessRecord) : ProcessRecord :=
  if p.arrivedBy now && !p.isCompleted && !p.isRunning then { p with waited := p.waited + 1 } else p

/-- Ticks from arrival to finish. -/
def turnaround (p : ProcessRecord) : Option Nat := p.finish.map (· - p.arrival)

/-- Turnaround less the burst, zero if that is less than nothing. -/
def netWaiting (p : ProcessRecord) : Option Nat := p.turnaround.map (· - p.burst)

end ProcessRecord

/-! A process table is the list of all records, in the order of the workload. -/
namespace ProcessTable

def ofJobs (jobs : List Job) : List ProcessRecord := jobs.map Job.toRecord

theorem length_ofJobs (jobs : List Job) : (ofJobs jobs).length = jobs.length :=
  List.length_map _

/-- The first record with a given identifier. -/
def findPid? (procs : List ProcessRecord) (pid : Int) : Option ProcessRecord :=
  procs.find? (·.pid == pid)

def countCompleted (procs : List ProcessRecord) : Nat := procs.countP (·.isCompleted)

end ProcessTable
end CpuScheduling
