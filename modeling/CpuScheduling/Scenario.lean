import CpuScheduling.Job
import CpuScheduling.Timeline
/-!
Scenarios: processors, jobs and the bound on a run. Without a bound of its own a scenario may run
for five times its horizon, or five times the room of a fresh timeline if that is more.
-/
namespace CpuScheduling

structure Scenario where
  cpus : Nat
  cpus_pos : 0 < cpus
  jobs : List Job
  /-- The explicit bound on the ticks of a run. -/
  limit : Option Nat := none
deriving DecidableEq

namespace Scenario

def lastArrival (jobs : List Job) : Nat := jobs.foldl (fun latest j => max latest j.arrival) 0

/-- The work of all jobs, as far as the clock can count it. -/
def totalBurst (jobs : List Job) : Nat := jobs.foldl (fun total j => addTicks total j.burst) 0

/-- The last arrival plus all work: no schedule that never idles in vain needs more ticks. -/
def horizon (s : Scenario) : Nat := addTicks (lastArrival s.jobs) (totalBurst s.jobs)

/-- How often the expected length of a run may be exceeded. -/
def patience : Nat := 5

/-- The ticks after which an unfinished run is given up. -/
def bound (s : Scenario) : Nat :=
  s.limit.getD (mulTicks (max s.horizon defaultTimelineCapacity) patience)

end Scenario
end CpuScheduling
