/-!
Numbers of the library and the words that bound them. A tick is a natural number counted from
zero, a processor and a slot of the process table are places counted from zero, and an identifier
of a process is an integer. The few sums that may leave the range of a sixty-four bit clock
saturate, and say so here.
-/
namespace CpuScheduling

/-- The last tick that a sixty-four bit clock shows. -/
def lastTick : Nat := 0xFFFFFFFFFFFFFFFF

/-- Addition that stops at the last tick. -/
def addTicks (a b : Nat) : Nat := min (a + b) lastTick

/-- Multiplication that stops at the last tick. -/
def mulTicks (a b : Nat) : Nat := min (a * b) lastTick

/-- The greatest signed thirty-two bit number. -/
def maxInt32 : Int := 0x7FFFFFFF

/-- Whether a number fits a signed thirty-two bit word. -/
def fitsInt32 (v : Int) : Bool := decide (-0x80000000 ≤ v) && decide (v ≤ maxInt32)

/-- Whether a number fits a signed sixty-four bit word. -/
def fitsInt64 (v : Int) : Bool :=
  decide (-0x8000000000000000 ≤ v) && decide (v ≤ 0x7FFFFFFFFFFFFFFF)

/-- The greatest number of processors, an unsigned thirty-two bit number. -/
def maxCpus : Nat := 0xFFFFFFFF

end CpuScheduling
