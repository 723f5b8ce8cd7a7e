import CpuScheduling.Decimal.Fixed
import CpuScheduling.Statistics
/-!
The tables of a report: one line per process, one per processor, and the averages. Times that a
process never reached are shown as a dash if it has started and as N/A otherwise.
-/
namespace CpuScheduling.Report

/-- The places of a mean or a share. -/
def places : Nat := 2

/-- The text of a number that does not apply. -/
def notApplicable : String := "N/A"

def wideRule : String := "----------------------------------------------------------------"

def narrowRule : String := "------------------------------------------"

/-- Columns of given widths, left-aligned and one blank apart. -/
def columns (entries : List (Nat × String)) : String :=
  " ".intercalate (entries.map fun (width, text) => Text.padRight width text)

/-- A line of the process table: the identifier, then seven columns of one width. -/
def processColumns (pid : String) (rest : List String) : String :=
  columns ((6, pid) :: rest.map fun text => (7, text))

/-- What an unfinished process shows for a time that it may have reached. -/
def unfinished (time : Option Nat) : String := if time.isSome then "-" else notApplicable

/-- The line of one process in its table. -/
def processLine (p : ProcessStatistics) : String :=
  processColumns p.pid.repr <|
    match p.finish, p.turnaround, p.waiting with
    | some finish, some turnaround, some waiting =>
      [p.arrival.repr, p.burst.repr, (p.start.getD 0).repr, finish.repr, turnaround.repr,
       waiting.repr, (p.response.getD 0).repr]
    | _, _, _ =>
      [p.arrival.repr, p.burst.repr, unfinished p.start, notApplicable, notApplicable,
       notApplicable, unfinished p.response]

def processTable (processes : List ProcessStatistics) : String :=
  Text.unlines <|
    ["\nProcess Statistics:",
     processColumns "PID" ["Arrival", "Burst", "Start", "Finish", "Turn.", "Waiting", "Resp."],
     wideRule] ++ processes.map processLine ++ [wideRule]

/-- The line of one processor in its table. -/
def loadLine (c : CpuStatistics) : String :=
  columns [(6, c.cpu.repr), (9, c.busy.repr), (9, c.idle.repr),
    (11, Decimal.fixed places c.utilization)] ++ "%"

def cpuTable (cpus : List CpuStatistics) : String :=
  Text.unlines <|
    ["\nCPU Statistics:",
     columns [(6, "CPU ID"), (9, "Busy Time"), (9, "Idle Time"), (12, "Utilization")],
     narrowRule] ++ cpus.map loadLine ++ [narrowRule]

/-- The line of one metric; its range is shown if there is one. -/
def averageLine (label : String) (m : Metric) : String :=
  "  Average " ++ Text.padRight 17 (label ++ " Time:") ++ Decimal.fixed places m.mean ++
    match m.range with
    | some (least, greatest) => "  (min " ++ least.repr ++ ", max " ++ greatest.repr ++ ")"
    | none => ""

def averages : Option Averages → String
  | none => "\nNo processes completed. Cannot calculate average statistics.\n"
  | some a =>
    Text.unlines
      ["\nAverage Statistics (for " ++ a.completed.repr ++ " completed processes):",
       averageLine "Turnaround" a.turnaround, averageLine "Waiting" a.waiting,
       averageLine "Response" a.response]

end CpuScheduling.Report
