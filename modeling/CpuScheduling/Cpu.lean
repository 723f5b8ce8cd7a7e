import CpuScheduling.Units
/-!
Processors. A processor is known by its place in the pool; it holds at most one process, by slot.
-/
namespace CpuScheduling

structure Cpu where
  current : Option Nat := none
  /-- Ticks spent running a process. -/
  busy : Nat := 0
  /-- Ticks spent with nothing to run. -/
  idle : Nat := 0
deriving DecidableEq

namespace Cpu

def isIdle (c : Cpu) : Bool := c.current.isNone

def assign (slot : Nat) (c : Cpu) : Cpu := { c with current := some slot }

def release (c : Cpu) : Cpu := { c with current := none }

/-- One tick later: busy if it holds a process. -/
def elapse (c : Cpu) : Cpu :=
  if c.isIdle then { c with idle := c.idle + 1 } else { c with busy := c.busy + 1 }

/-- The busy share of the elapsed ticks in percent, zero before any tick. -/
def utilization (c : Cpu) : Float :=
  let total := c.busy + c.idle
  if total = 0 then 0 else 100 * c.busy.toUInt64.toFloat / total.toUInt64.toFloat

end Cpu
end CpuScheduling
