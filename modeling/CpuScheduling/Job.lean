import CpuScheduling.Units
/-!
Jobs, as a workload describes them.
-/
namespace CpuScheduling

/-- The description of a process; of two that tie, the one of greater priority is preferred. -/
structure Job where
  pid : Int
  /-- The first tick at which the process may run. -/
  arrival : Nat
  /-- The processor ticks it needs. -/
  burst : Nat
  priority : Int := 0
deriving DecidableEq

end CpuScheduling
