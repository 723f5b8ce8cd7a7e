import CpuScheduling.CommandLine.Arguments
import CpuScheduling.FileTree
import CpuScheduling.Report
import CpuScheduling.Workload.Source
/-!
One run of the program from its options and the contents of the workload file to everything it
writes. The two places where it meets files are left open: `perform` takes what reading the
workload gave, and `conclude` what creating the file of comma-separated values gave.
-/
namespace CpuScheduling.CommandLine

/-- The variables of the environment that the program looks at. -/
structure Environment where
  /-- The algorithm for runs that name none. -/
  algorithm : Option String := none
  /-- The least severe level that is logged. -/
  logLevel : Option String := none
  /-- A text that is not empty turns the colours of the log off. -/
  noColor : Option String := none

namespace Environment

/-- The log levels by name and by number. -/
def levelNames : List (String × Option Log.Level) :=
  [("off", none), ("error", some .error), ("warn", some .warn), ("info", some .info),
   ("debug", some .debug), ("trace", some .trace), ("0", none), ("1", some .error),
   ("2", some .warn), ("3", some .info), ("4", some .debug), ("5", some .trace)]

/-- The level from which on lines are shown: warnings if none is chosen, nothing for a text that
names no level. -/
def threshold (env : Environment) : Option Log.Level :=
  match env.logLevel with
  | none => some .warn
  | some name =>
    (levelNames.find? fun e => Text.sameLetters e.1.toList name.toList).bind (·.2)

def ansi (env : Environment) : Bool := (env.noColor.getD "").isEmpty

end Environment

/-- What a run writes, and the code it ends with. -/
structure Transcript where
  code : Nat := 0
  stdout : String := ""
  stderr : String := ""
  /-- The file to be created at the end, with its text. -/
  file : Option (String × String) := none
deriving DecidableEq

def errorLine (text : String) : String := "error: " ++ text ++ "\n"

/-- The run over a workload that has jobs. -/
def report (o : Options) (env : Environment) (notices : List Log.Notice) (jobs : List Job) :
    Transcript :=
  let s := o.settings
  let outcome := simulate s.discipline (s.scenario jobs)
  let statistics := Statistics.ofOutcome outcome
  let csv := Report.csv statistics
  let journal := (({} : Log.Journal).addAll notices).append outcome.machine.journal
  { stdout :=
      "Loaded " ++ jobs.length.repr ++ " processes from " ++ o.file ++ "\n" ++
        Report.header s.discipline s.cpus ++ Report.text o.color outcome statistics ++
        "\n\n--- CSV Output ---\n" ++ csv ++ "--- End CSV Output ---\n"
    stderr :=
      journal.render env.threshold env.ansi ++
        (if o.dumpTrace then Trace.text outcome.machine.trace else "")
    file := o.csv.map fun path => (path, csv) }

/-- The run up to the point where the file of comma-separated values is created. -/
def perform (o : Options) (env : Environment) (source : Except FileTree.Fault String) :
    Transcript :=
  let settled := o.changes.flatMap Settings.Change.notices
  let logOf (notices : List Log.Notice) : String :=
    (({} : Log.Journal).addAll notices).render env.threshold env.ansi
  match Workload.ofSource o.file source with
  | .error e =>
    { code := 1
      stderr := logOf settled ++
        errorLine ("failed to load workload " ++ o.file ++ ": " ++ e.message ++ ": " ++
          e.cause.message) }
  | .ok workload =>
    let notices := settled ++ workload.notices
    if workload.jobs.isEmpty then
      { stdout := "Warning: No valid processes found in " ++ o.file ++
          "\nNo processes loaded or simulation not possible.\n"
        stderr := logOf notices }
    else report o env notices workload.jobs

/-- The end of a run, after the attempt to create its file. -/
def Transcript.conclude {α : Type} (t : Transcript) (path : String)
    (created : Except FileTree.Fault α) : Transcript :=
  match created with
  | .ok _ => t
  | .error e =>
    { t with
      code := 1
      stderr := t.stderr ++ errorLine ("failed to create " ++ path ++ ": " ++ e.message) }

/-- The code of a run that is refused. -/
def Refusal.code : Refusal → Nat
  | .usage => 2
  | .help => 0

def usageText : String :=
  "Usage: [OPTIONS] --file <PATH>\n\n" ++
  "  -f, --file <PATH>            Workload: one \"<pid> <arrival> <burst> [priority]\" a line\n" ++
  "  -a, --algorithm <ALGORITHM>  FCFS, RR, SRTF or SJF\n" ++
  "  -c, --cpus <CPUS>            Number of processors\n" ++
  "  -q, --quantum <QUANTUM>      Quantum of round robin, in ticks\n" ++
  "      --max-ticks <TICKS>      Give up after this many ticks\n" ++
  "      --no-color               No colours in the timeline\n" ++
  "      --dump-trace             Events to standard error\n" ++
  "      --csv <PATH>             Write the datasets to this file too\n" ++
  "  -h, --help                   Print this text\n"

/-- What is written when a run is refused. -/
def Refusal.transcript : Refusal → Transcript
  | .usage => { code := 2, stderr := usageText }
  | .help => { code := 0, stdout := usageText }

/-- The whole program over a tree of files: what it writes, and the tree it leaves. -/
def run (args : List String) (env : Environment) (tree : FileTree) :
    Except Refusal (Transcript × FileTree) := do
  let options ← Options.read args env.algorithm
  let transcript := perform options env (tree.readText options.file)
  match transcript.file with
  | none => pure (transcript, tree)
  | some (path, text) =>
    let written := tree.writeText path text
    pure (transcript.conclude path written, written.toOption.getD tree)

end CpuScheduling.CommandLine
