import CpuScheduling.Machine.Phases
/-!
One whole tick. The order of the phases matters: a processor that an expired quantum frees is
filled in the same tick, and the timeline shows the occupant that works.
-/
namespace CpuScheduling.Machine

/-- What the policy does with the arrivals and the occupants before idle processors are filled. -/
def reschedule (arrived : List Nat) (m : Machine) : Machine :=
  match m.policy with
  | .roundRobin quantum _ => (arrived.foldl sendToQueue m).endSlices quantum
  | .srtf => m.preempt
  | .fcfs | .sjf => m

/-- The tick of the log set to the current one. -/
def stamped (m : Machine) : Machine := { m with journal := m.journal.setStamp (some m.now) }

def advance (m : Machine) : Machine := { m with now := m.now + 1 }

def step (m : Machine) : Machine :=
  let ready := (m.stamped.enroll m.policy.algorithm).reschedule m.arriving
  ready.occupyIdle.snapshot.ageWaiting.work.advance

/-- `n` whole ticks. -/
def steps : Nat → Machine → Machine
  | 0, m => m
  | n + 1, m => steps n m.step

end CpuScheduling.Machine
