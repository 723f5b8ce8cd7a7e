import CpuScheduling.Units
/-!
Reading decimal numbers. A natural number is one or more digits and nothing else; an integer may
have one sign before them. A number that its word cannot hold is no number.
-/
namespace CpuScheduling.Text

/-- The value of a text of digits. -/
def natural? (digits : List Char) : Option Nat :=
  if digits.isEmpty || !digits.all (·.isDigit) then none else some (Nat.ofDigitChars 10 digits 0)

/-- The value of digits behind at most one sign. -/
def integer? : List Char → Option Int
  | '+' :: digits => (natural? digits).map fun n => (n : Int)
  | '-' :: digits => (natural? digits).map fun n => -(n : Int)
  | digits => (natural? digits).map fun n => (n : Int)

/-- An integer that fits a signed sixty-four bit word. -/
def int64? (text : List Char) : Option Int := (integer? text).filter fitsInt64

/-- A tick: digits behind at most one plus sign, up to the last tick. -/
def tick? : List Char → Option Nat
  | '+' :: digits => (natural? digits).filter (· ≤ lastTick)
  | digits => (natural? digits).filter (· ≤ lastTick)

end CpuScheduling.Text
