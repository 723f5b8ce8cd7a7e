import CpuScheduling.Job
import CpuScheduling.Text.Blank
import CpuScheduling.Text.Numeral
/-!
One line of a workload: an identifier, an arrival, a burst and perhaps a priority, between blanks.
Blank lines and lines that start with a hash say nothing. What follows the priority is ignored,
and a priority that is no number counts as zero.
-/
namespace CpuScheduling.Workload

/-- Why a line describes no job. -/
inductive LineFault where
  /-- One of the first three words is missing or no integer. -/
  | missingFields
  | pidOutOfRange (v : Int)
  | negativeArrival (v : Int)
  | arrivalOutOfRange (v : Int)
  | nonPositiveBurst (v : Int)
  | burstOutOfRange (v : Int)
deriving DecidableEq

namespace LineFault

/-- The value at fault. -/
def value? : LineFault → Option Int
  | .missingFields => none
  | .pidOutOfRange v | .negativeArrival v | .arrivalOutOfRange v | .nonPositiveBurst v
  | .burstOutOfRange v => some v

def message : LineFault → String
  | .missingFields => "expected <pid> <arrival> <burst> [priority]"
  | .pidOutOfRange v => "pid " ++ v.repr ++ " out of range"
  | .negativeArrival v => "arrival time must be >= 0, got " ++ v.repr
  | .arrivalOutOfRange v => "arrival time " ++ v.repr ++ " exceeds " ++ maxInt32.repr
  | .nonPositiveBurst v => "burst time must be > 0, got " ++ v.repr
  | .burstOutOfRange v => "burst time " ++ v.repr ++ " exceeds " ++ maxInt32.repr

end LineFault

/-- A job from its numbers; the first fault in the order pid, arrival, burst is reported. -/
def jobOf (pid arrival burst priority : Int) : Except LineFault Job :=
  if !fitsInt32 pid then .error (.pidOutOfRange pid)
  else if arrival < 0 then .error (.negativeArrival arrival)
  else if maxInt32 < arrival then .error (.arrivalOutOfRange arrival)
  else if burst ≤ 0 then .error (.nonPositiveBurst burst)
  else if maxInt32 < burst then .error (.burstOutOfRange burst)
  else .ok { pid, arrival := arrival.toNat, burst := burst.toNat, priority }

/-- The integer at a place of a list of words. -/
def numberAt? (words : List (List Char)) (place : Nat) : Option Int :=
  words[place]?.bind Text.int64?

/-- The job that a line of words describes. -/
def readWords (words : List (List Char)) : Except LineFault Job :=
  match numberAt? words 0, numberAt? words 1, numberAt? words 2 with
  | some pid, some arrival, some burst =>
    jobOf pid arrival burst (((numberAt? words 3).filter fitsInt32).getD 0)
  | _, _, _ => .error .missingFields

/-- Whether a trimmed line says nothing. -/
def isRemark (trimmed : List Char) : Bool := trimmed.isEmpty || trimmed.head? == some '#'

/-- What a line says, if anything. -/
def readLine (line : List Char) : Option (Except LineFault Job) :=
  let trimmed := Text.trim line
  if isRemark trimmed then none else some (readWords (Text.words trimmed))

end CpuScheduling.Workload
