import CpuScheduling.Report.Csv
import CpuScheduling.Report.Timeline
/-!
The report of a run: the line that announces it, then the timeline and the tables.
-/
namespace CpuScheduling.Report

/-- The announcement of a run; only round robin names its quantum. -/
def header (d : Discipline) (cpus : Nat) : String :=
  "\nStarting simulation with " ++ d.algorithm.title ++ " on " ++ cpus.repr ++ " CPU(s)" ++
    (if d.algorithm = .roundRobin then ", Quantum=" ++ d.quantum.repr else "") ++ "\n"

def text (color : Bool) (o : Outcome) (s : Statistics) : String :=
  "\n--- Simulation Results ---\n" ++
    timeline color (o.machine.procs.map (·.pid)) o.machine.timeline ++ processTable s.processes ++
    cpuTable s.cpus ++ averages s.averages

end CpuScheduling.Report
