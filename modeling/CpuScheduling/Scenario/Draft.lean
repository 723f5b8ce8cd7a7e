import CpuScheduling.Scenario
/-!
Scenarios under construction. A job without an identifier of its own gets one more than the
greatest given before it, at least one, and at most the greatest identifier there is.
-/
namespace CpuScheduling.Scenario

structure Draft where
  cpus : Nat := 1
  jobs : Array Job := #[]
  limit : Option Nat := none
  /-- The identifier of the next job that comes without one. -/
  nextPid : Int := 1

/-- One step of a construction. -/
inductive Draft.Change where
  | cpus (n : Nat)
  | job (j : Job)
  | jobs (js : List Job)
  /-- A job of priority zero that is given the next identifier. -/
  | unnamed (arrival burst : Nat)
  | limit (ticks : Nat)
deriving DecidableEq

namespace Draft

def addJob (d : Draft) (j : Job) : Draft :=
  { d with jobs := d.jobs.push j, nextPid := max d.nextPid (min (j.pid + 1) maxInt32) }

def apply (d : Draft) : Change → Draft
  | .cpus n => { d with cpus := n }
  | .job j => d.addJob j
  | .jobs js => js.foldl addJob d
  | .unnamed arrival burst => d.addJob { pid := d.nextPid, arrival, burst }
  | .limit ticks => { d with limit := some ticks }

/-- The draft that a sequence of steps makes from nothing. -/
def ofChanges (changes : List Change) : Draft := changes.foldl apply {}

/-- Why a draft is no scenario. -/
inductive Fault where
  | noCpu
deriving DecidableEq

def Fault.message : Fault → String
  | .noCpu => "scenario must have at least one CPU"

def toScenario (d : Draft) : Except Fault Scenario :=
  if h : 0 < d.cpus then
    .ok { cpus := d.cpus, cpus_pos := h, jobs := d.jobs.toList, limit := d.limit }
  else .error .noCpu

end Draft
end CpuScheduling.Scenario
