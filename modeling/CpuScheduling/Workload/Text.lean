import CpuScheduling.Log.Notice
import CpuScheduling.Text.Split
import CpuScheduling.Workload.Line
/-!
Workload texts, read line by line. A line that describes no job is skipped; blank lines and
remarks are not counted among the skipped ones.
-/
namespace CpuScheduling

structure Workload where
  /-- The jobs in the order of their lines. -/
  jobs : List Job
  /-- The numbers of the skipped lines, the first line being one, and why they were skipped. -/
  rejected : List (Nat × Workload.LineFault)
deriving DecidableEq

namespace Workload

/-- What each line says, for the lines that say something, with its number. -/
def readings (text : List Char) : List (Nat × Except LineFault Job) :=
  (Text.lines text).zipIdx.filterMap fun (line, i) => (readLine line).map fun said => (i + 1, said)

def jobOf? : Nat × Except LineFault Job → Option Job
  | (_, .ok job) => some job
  | (_, .error _) => none

def rejection? : Nat × Except LineFault Job → Option (Nat × LineFault)
  | (_, .ok _) => none
  | (number, .error cause) => some (number, cause)

def ofText (text : List Char) : Workload :=
  { jobs := (readings text).filterMap jobOf?, rejected := (readings text).filterMap rejection? }

def skipped (w : Workload) : Nat := w.rejected.length

/-- What is said about a workload that has been read. -/
def notices (w : Workload) : List Log.Notice :=
  w.rejected.map (fun (number, cause) => .lineSkipped number cause) ++
    [.workloadRead w.jobs.length w.skipped]

end Workload
end CpuScheduling
