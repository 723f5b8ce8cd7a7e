import CpuScheduling.Simulation
/-!
Statistics of a run: the times of every process, the load of every processor, and the averages
over the processes that have completed.
-/
namespace CpuScheduling

/-- Count, total and range of one metric; the total stops at the last tick. -/
structure Metric where
  count : Nat := 0
  total : Nat := 0
  /-- The least and the greatest sample. -/
  range : Option (Nat × Nat) := none
deriving DecidableEq

namespace Metric

def add (m : Metric) (value : Nat) : Metric where
  count := m.count + 1
  total := addTicks m.total value
  range :=
    match m.range with
    | none => some (value, value)
    | some (least, greatest) => some (min least value, max greatest value)

/-- The samples of a list added to a metric. -/
def extend (m : Metric) (values : List Nat) : Metric := values.foldl add m

def ofList (values : List Nat) : Metric := extend {} values

theorem extend_append (m : Metric) (xs ys : List Nat) :
    m.extend (xs ++ ys) = (m.extend xs).extend ys := List.foldl_append

def least? (m : Metric) : Option Nat := m.range.map (·.1)

def greatest? (m : Metric) : Option Nat := m.range.map (·.2)

/-- The total divided by the count, zero if there is no sample. -/
def mean (m : Metric) : Float :=
  if m.count = 0 then 0 else m.total.toUInt64.toFloat / m.count.toUInt64.toFloat

end Metric

structure ProcessStatistics extends Job where
  start : Option Nat
  finish : Option Nat
  turnaround : Option Nat
  waiting : Option Nat
  response : Option Nat
  /-- The waiting that the run counted tick by tick. -/
  accruedWaiting : Nat
deriving DecidableEq

namespace ProcessStatistics

def isCompleted (p : ProcessStatistics) : Bool := p.finish.isSome

def ofRecord (p : ProcessRecord) : ProcessStatistics :=
  { p.toJob with
    start := p.start
    finish := p.finish
    turnaround := p.turnaround
    waiting := p.netWaiting
    response := p.response
    accruedWaiting := p.waited }

/-- Turnaround, waiting and response of a process that has all three. -/
def triple? (p : ProcessStatistics) : Option (Nat × Nat × Nat) := do
  pure (← p.turnaround, ← p.waiting, ← p.response)

end ProcessStatistics

structure CpuStatistics where
  cpu : Nat
  busy : Nat
  idle : Nat
  /-- The busy share of the elapsed ticks in percent. -/
  utilization : Float

def CpuStatistics.ofCpu (cpu : Nat) (c : Cpu) : CpuStatistics :=
  { cpu, busy := c.busy, idle := c.idle, utilization := c.utilization }

/-- The three metrics over completed processes. -/
structure Averages where
  turnaround : Metric := {}
  waiting : Metric := {}
  response : Metric := {}
deriving DecidableEq

/-- How many processes the averages cover. -/
def Averages.completed (a : Averages) : Nat := a.turnaround.count

def Averages.ofProcesses (processes : List ProcessStatistics) : Averages :=
  let triples := processes.filterMap (·.triple?)
  { turnaround := .ofList (triples.map (·.1))
    waiting := .ofList (triples.map (·.2.1))
    response := .ofList (triples.map (·.2.2)) }

structure Statistics where
  processes : List ProcessStatistics
  cpus : List CpuStatistics
  /-- None when no process has completed. -/
  averages : Option Averages
  totalTicks : Nat

namespace Statistics

def ofOutcome (o : Outcome) : Statistics :=
  let processes := o.machine.procs.map .ofRecord
  let averages := Averages.ofProcesses processes
  { processes
    cpus := o.machine.cpus.toList.zipIdx.map fun (c, cpu) => .ofCpu cpu c
    averages := if 0 < averages.completed then some averages else none
    totalTicks := o.totalTicks }

/-- The busy ticks of all processors. -/
def busyTicks (s : Statistics) : Nat := s.cpus.foldl (fun total c => total + c.busy) 0

end Statistics
end CpuScheduling
