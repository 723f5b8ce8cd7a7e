import CpuScheduling.Job
import CpuScheduling.Units
/-!
Workloads of common arrival patterns. The identifiers are 1, 2, 3, … in list order. A drawn
pattern takes arrival, burst and priority of each job in turn from a linear congruential sequence,
so that a seed always gives the same jobs, in the order in which they are drawn.
-/
namespace CpuScheduling.Workload

inductive Pattern where
  /-- Equal jobs, all at tick zero. -/
  | simultaneous (n burst : Nat)
  /-- Equal jobs, one every `gap` ticks. -/
  | spaced (n burst gap : Nat)
  /-- A long job at tick zero, then short ones, one a tick. -/
  | convoy (long n short : Nat)
  /-- Jobs whose times and priorities follow from a seed. -/
  | drawn (n maxArrival maxBurst seed : Nat)
deriving DecidableEq

namespace Pattern

/-- The job at a place of the list. -/
def jobAt (i arrival burst : Nat) (priority : Int := 0) : Job :=
  { pid := (i : Int) + 1, arrival, burst, priority }

/-- The next state of the sequence. -/
def nextState (state : Nat) : Nat :=
  (state * 6364136223846793005 + 1442695040888963407) % (lastTick + 1)

/-- What a state yields: its upper thirty-one bits. -/
def draw (state : Nat) : Nat := state / 0x200000000

/-- `n` drawn jobs from place `i` on, drawn after `state`. -/
def drawnJobs (maxArrival maxBurst : Nat) : Nat → Nat → Nat → List Job
  | 0, _, _ => []
  | n + 1, i, state =>
    let first := nextState state
    let second := nextState first
    let third := nextState second
    jobAt i (draw first % (maxArrival + 1)) (draw second % maxBurst + 1) (draw third % 5 : Nat) ::
      drawnJobs maxArrival maxBurst n (i + 1) third

/-- Why a pattern has no jobs to give. -/
inductive Fault where
  /-- A drawn burst would have no value to take. -/
  | noBurst
  /-- The number of arrivals to draw from would leave the clock. -/
  | arrivalRange
deriving DecidableEq

/-- What is said about a fault, if anything. -/
def Fault.message? : Fault → Option String
  | .noBurst => some "max_burst must be positive"
  | .arrivalRange => none

def jobs : Pattern → Except Fault (List Job)
  | .simultaneous n burst => .ok ((List.range n).map fun i => jobAt i 0 burst)
  | .spaced n burst gap => .ok ((List.range n).map fun i => jobAt i (i * gap) burst)
  | .convoy long n short =>
    .ok (jobAt 0 0 long :: (List.range n).map fun i => jobAt (i + 1) (i + 1) short)
  | .drawn n maxArrival maxBurst seed =>
    if maxBurst = 0 then .error .noBurst
    else if lastTick ≤ maxArrival ∧ 0 < n then .error .arrivalRange
    else .ok (drawnJobs maxArrival maxBurst n 0 seed)

end Pattern
end CpuScheduling.Workload
