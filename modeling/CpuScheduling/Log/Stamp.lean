import CpuScheduling.Text.Padded
/-!
The tick stamp of a log line: the digits of the tick in groups of three, right-aligned, or a dash
outside a run.
-/
namespace CpuScheduling.Log

/-- The digits of a number below `1000 ^ (n + 1)`, an underscore between groups of three. -/
def thousandsDigits : Nat → Nat → List Char
  | 0, tick => Nat.toDigits 10 tick
  | n + 1, tick =>
    if tick < 1000 then Nat.toDigits 10 tick
    else thousandsDigits n (tick / 1000) ++ '_' :: (Nat.toDigits 10 (tick % 1000)).leftpad 3 '0'

def inThousands (tick : Nat) : String := String.ofList (thousandsDigits tick tick)

/-- The stamp of a tick, or of no tick. -/
def stamp : Option Nat → String
  | some tick => Text.padLeft 9 (inThousands tick) ++ ":T"
  | none => Text.padLeft 9 "-" ++ ":T"

end CpuScheduling.Log
