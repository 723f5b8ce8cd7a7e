import CpuScheduling.FileTree
import CpuScheduling.Workload.Text
/-!
Workloads from files: what the text of a file says, or why there is no text.
-/
namespace CpuScheduling.Workload

/-- The failure to read a workload file. -/
structure ReadFailure where
  path : String
  cause : FileTree.Fault
deriving DecidableEq

def ReadFailure.message (e : ReadFailure) : String :=
  "failed to read " ++ e.path ++ ": " ++ e.cause.message

/-- The workload of a file, from what reading the file gave. -/
def ofSource (path : String) (source : Except FileTree.Fault String) :
    Except ReadFailure Workload :=
  match source with
  | .ok text => .ok (ofText text.toList)
  | .error cause => .error ⟨path, cause⟩

end CpuScheduling.Workload
