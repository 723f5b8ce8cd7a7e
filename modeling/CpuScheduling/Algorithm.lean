import CpuScheduling.Text.Blank
import CpuScheduling.Text.Letters
import CpuScheduling.Text.Quoted
/-!
The four scheduling algorithms and their names. A name is read without regard to case and to
blanks around it.
-/
namespace CpuScheduling

/-- How the next process is chosen. -/
inductive Algorithm where
  /-- First come, first served; never preempts. -/
  | fcfs
  /-- Turns of a fixed quantum, in the order of a queue. -/
  | roundRobin
  /-- Shortest remaining time first; a shorter arrival preempts. -/
  | srtf
  /-- Shortest job first; never preempts. -/
  | sjf
deriving DecidableEq

namespace Algorithm

def all : List Algorithm := [.fcfs, .roundRobin, .srtf, .sjf]

/-- The short name, by which an algorithm is also chosen. -/
def code : Algorithm → String
  | .fcfs => "FCFS"
  | .roundRobin => "RR"
  | .srtf => "SRTF"
  | .sjf => "SJF"

def title : Algorithm → String
  | .fcfs => "First-Come, First-Served"
  | .roundRobin => "Round Robin"
  | .srtf => "Shortest Remaining Time First"
  | .sjf => "Shortest Job First"

/-- Whether arrivals become ready at once; under the others they wait for the scan that picks
them. -/
def marksReady : Algorithm → Bool
  | .roundRobin | .srtf => true
  | .fcfs | .sjf => false

/-- A name that no algorithm has. -/
structure Unknown where
  name : String
deriving DecidableEq

def Unknown.message (e : Unknown) : String :=
  "unknown algorithm " ++ Text.quote e.name ++ "; expected one of FCFS, RR, SRTF, SJF"

def ofName (name : String) : Except Unknown Algorithm :=
  match all.find? fun a => Text.sameLetters a.code.toList (Text.trim name.toList) with
  | some a => .ok a
  | none => .error ⟨name⟩

end Algorithm
end CpuScheduling
