import CpuScheduling.Algorithm
import CpuScheduling.ReadyQueue
import CpuScheduling.Selection
/-!
The policy of a run: its algorithm with the state that the algorithm keeps. Only round robin keeps
any, its quantum and its queue.
-/
namespace CpuScheduling

inductive Policy where
  | fcfs
  | roundRobin (quantum : Nat) (queue : ReadyQueue)
  | srtf
  | sjf

namespace Policy

/-- A fresh policy; only round robin keeps the quantum. -/
def start (quantum : Nat) : Algorithm → Policy
  | .fcfs => .fcfs
  | .roundRobin => .roundRobin quantum (.empty defaultQueueCapacity)
  | .srtf => .srtf
  | .sjf => .sjf

def algorithm : Policy → Algorithm
  | .fcfs => .fcfs
  | .roundRobin _ _ => .roundRobin
  | .srtf => .srtf
  | .sjf => .sjf

/-- The queue, if the policy keeps one. -/
def queue? : Policy → Option ReadyQueue
  | .roundRobin _ queue => some queue
  | .fcfs | .srtf | .sjf => none

/-- The same policy with a queue of another capacity, as yet empty. -/
def withQueueCapacity (capacity : Nat) : Policy → Policy
  | .roundRobin quantum _ => .roundRobin quantum (.empty capacity)
  | policy => policy

/-- The same policy with one more slot in its queue, if it keeps one. -/
def enqueue? (slot : Nat) : Policy → Option (Except QueueOverflow Policy)
  | .roundRobin quantum queue => some ((queue.enqueue slot).map (.roundRobin quantum))
  | .fcfs | .srtf | .sjf => none

/-- The next process for an idle processor, and the policy after the choice. -/
def next (policy : Policy) (procs : List ProcessRecord) (now : Nat) : Option Nat × Policy :=
  match policy with
  | .fcfs => (Selection.bestWaiting? (·.arrival) procs now, .fcfs)
  | .roundRobin quantum queue => (queue.dequeue.1, .roundRobin quantum queue.dequeue.2)
  | .srtf => (Selection.bestWaiting? (·.remaining) procs now, .srtf)
  | .sjf => (Selection.bestWaiting? (·.burst) procs now, .sjf)

end Policy
end CpuScheduling
