import CpuScheduling.Report.Tables
/-!
The statistics as comma-separated values: three datasets, each under a title line. The text of a
dataset is left to a writer, which gets the names of the fields and the rows; the writer in use puts
the names before the first row and quotes a field only where it must.
-/
namespace CpuScheduling.Report

/-- A writer of comma-separated values. -/
structure CsvWriter where
  /-- The text of one record. -/
  record : List String → String
  /-- The text for the names of some fields and for rows of their values. -/
  text : List String → List (List String) → String

structure Dataset where
  title : String
  names : List String
  rows : List (List String)

/-- A dataset under its title, behind an empty line. -/
def Dataset.text (w : CsvWriter) (d : Dataset) : String :=
  "\n" ++ d.title ++ "\n" ++ w.text d.names d.rows

def timeField : Option Nat → String
  | some t => t.repr
  | none => notApplicable

/-- A time of a process, which is given only once the process has completed. -/
def whenDone (p : ProcessStatistics) (time : Option Nat) : Option Nat :=
  if p.isCompleted then time else none

def processFields (p : ProcessStatistics) : List String :=
  [p.pid.repr, p.arrival.repr, p.burst.repr, p.priority.repr, timeField (whenDone p p.start),
   timeField p.finish, timeField p.turnaround, timeField p.waiting,
   timeField (whenDone p p.response)]

def cpuFields (c : CpuStatistics) : List String :=
  [c.cpu.repr, c.busy.repr, c.idle.repr, Decimal.fixed places c.utilization]

def averageFields : Option Averages → List String
  | some a => [a.turnaround, a.waiting, a.response].map fun m => Decimal.fixed places m.mean
  | none => List.replicate 3 notApplicable

def processDataset (s : Statistics) : Dataset where
  title := "Process Stats (CSV):"
  names := ["PID", "Arrival", "Burst", "Priority", "Start", "Finish", "Turnaround", "Waiting",
    "Response"]
  rows := s.processes.map processFields

def cpuDataset (s : Statistics) : Dataset where
  title := "CPU Stats (CSV):"
  names := ["CPU_ID", "BusyTime", "IdleTime", "Utilization%"]
  rows := s.cpus.map cpuFields

def averageDataset (s : Statistics) : Dataset where
  title := "Average Stats (CSV):"
  names := ["AvgTurnaround", "AvgWaiting", "AvgResponse"]
  rows := [averageFields s.averages]

def datasets (s : Statistics) : List Dataset := [processDataset s, cpuDataset s, averageDataset s]

/-- The datasets, as a writer writes them. -/
def csvBy (w : CsvWriter) (s : Statistics) : String := String.join ((datasets s).map (·.text w))

/-! The writer in use. -/

/-- Whether a character can stand in a field only if the field is quoted. -/
def isReserved (c : Char) : Bool := [',', '"', '\n', '\r'].contains c

/-- A character of a field in quotes; a quote is doubled. -/
def quotedChar (c : Char) : String := if c = '"' then "\"\"" else String.singleton c

/-- A field, in quotes if it must be. -/
def quotedField (field : String) : String :=
  if field.toList.any isReserved then
    "\"" ++ String.join (field.toList.map quotedChar) ++ "\""
  else field

/-- The fields of a record, a comma between two, on a line; a record of which nothing shows is a
pair of quotes. -/
def recordText (fields : List String) : String :=
  let line := ",".intercalate (fields.map quotedField)
  (if line = "" then "\"\"" else line) ++ "\n"

/-- Record after record, the names before the rows; nothing if there are no rows. -/
def sparingWriter : CsvWriter where
  record := recordText
  text names rows := if rows = [] then "" else String.join ((names :: rows).map recordText)

/-- The datasets by the writer in use. -/
def csv (s : Statistics) : String := csvBy sparingWriter s

end CpuScheduling.Report
