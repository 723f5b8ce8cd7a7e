import CpuScheduling.Machine.Step
/-!
Runs. A discipline, which is an algorithm with its quantum, is run on a scenario until every
process has finished or the limit of the scenario is reached.
-/
namespace CpuScheduling

/-- The quantum of round robin for which no other is chosen. -/
def defaultQuantum : Nat := 2

structure Discipline where
  algorithm : Algorithm
  quantum : Nat := defaultQuantum
deriving DecidableEq

namespace Discipline

/-- With another quantum; zero stands for the default. -/
def setQuantum (d : Discipline) (quantum : Nat) : Discipline :=
  { d with quantum := if quantum = 0 then defaultQuantum else quantum }

def policy (d : Discipline) : Policy := .start d.quantum d.algorithm

end Discipline

/-- How a run ended. -/
inductive Ending where
  | completed
  | cutOff (limit : Nat)
deriving DecidableEq

/-- What a run leaves behind. -/
structure Outcome where
  discipline : Discipline
  machine : Machine
  ending : Ending

namespace Machine

/-- Whole ticks until every process has finished, `n` at most. -/
def runAtMost : Nat → Machine → Machine
  | 0, m => m
  | n + 1, m => if m.allFinished then m else runAtMost n m.step

/-- How a run that was given `limit` ticks has ended. -/
def ending (limit : Nat) (m : Machine) : Ending :=
  if m.allFinished then .completed else .cutOff limit

/-- What is said when a run ends before its processes do. -/
def abortNotices (limit : Nat) (m : Machine) : List Log.Notice :=
  if m.allFinished then [] else [.runAborted limit m.completed m.procs.length]

/-- The last words of a run; those after the last tick are said outside it. -/
def conclude (limit : Nat) (m : Machine) : Machine :=
  let aborted := m.journal.addAll (m.abortNotices limit)
  { m with journal := (aborted.setStamp none).add (.runEnded m.now m.completed) }

end Machine

namespace Outcome

/-- The number of ticks simulated. -/
def totalTicks (o : Outcome) : Nat := o.machine.now

def process? (o : Outcome) (pid : Int) : Option ProcessRecord :=
  ProcessTable.findPid? o.machine.procs pid

/-- The occupant of a processor at a tick. -/
def occupantAt (o : Outcome) (tick cpu : Nat) : Cell := o.machine.timeline.get tick cpu

def isComplete (o : Outcome) : Bool := decide (o.ending = .completed)

end Outcome

/-- The run of a discipline on a scenario. -/
def simulate (d : Discipline) (s : Scenario) : Outcome :=
  let started := (Machine.boot s d.policy).say (.runStarted d.algorithm s.cpus s.jobs.length)
  let ended := started.runAtMost s.bound
  { discipline := d, machine := ended.conclude s.bound, ending := ended.ending s.bound }

end CpuScheduling
