import CpuScheduling.Text.Padded
import CpuScheduling.Timeline
/-!
The timeline as text: a key of all identifiers, eight a line, then windows of fifteen ticks with
one line per processor and five columns per tick. Colour wraps what is already padded, so that it
changes no column.
-/
namespace CpuScheduling.Report

/-- Columns of a tick. -/
def tickWidth : Nat := 5

/-- Ticks of a window: what fits eighty columns after the five of the line's name. -/
def windowTicks : Nat := (80 - 5) / tickWidth

/-- Entries of the key in one line. -/
def keyEntries : Nat := 8

/-- The escape sequence that ends a colour. -/
def colorEnd : String := "\x1b[0m"

/-- The escape sequence that starts the colour of an identifier: seven colours, which negative
identifiers go through like all others. -/
def colorOf (pid : Int) : String := "\x1b[" ++ (31 + (pid % 7).toNat).repr ++ "m"

/-- A text in the colour of an identifier, if colour is wanted. -/
def tint (color : Bool) (pid : Int) (text : String) : String :=
  if color then colorOf pid ++ text ++ colorEnd else text

/-- The key, an identifier a place, without the newline that ends it. -/
def key (color : Bool) (pids : List Int) : String :=
  String.join (pids.zipIdx.map fun (pid, i) =>
    tint color pid ("PID " ++ Text.padRight 2 pid.repr) ++ " " ++
      (if (i + 1) % keyEntries = 0 ∧ i + 1 < pids.length then "\n" else ""))

/-- One cell in its five columns; a dot stands for idle. -/
def cell (color : Bool) : Cell → String
  | none => Text.padRight tickWidth "."
  | some pid => tint color pid (Text.padRight tickWidth pid.repr)

/-- The line of the ticks of a window. -/
def rulerLine (ticks : List Nat) : String :=
  "Time: " ++ String.join (ticks.map fun t => Text.padRight tickWidth t.repr) ++ "\n"

/-- The line of one processor in a window. -/
def cpuLine (color : Bool) (t : Timeline) (ticks : List Nat) (cpu : Nat) : String :=
  "CPU" ++ Text.padRight 2 cpu.repr ++ " " ++
    String.join (ticks.map fun tick => cell color (t.get tick cpu)) ++ "\n"

/-- The ticks of the window that starts at `first`. -/
def windowRange (total first : Nat) : List Nat :=
  List.range' first (min windowTicks (total - first))

def window (color : Bool) (t : Timeline) (first : Nat) : String :=
  let ticks := windowRange t.length first
  "\nTime " ++ first.repr ++ " to " ++ (first + ticks.length - 1).repr ++ ":\n" ++
    rulerLine ticks ++ String.join ((List.range t.width).map (cpuLine color t ticks))

/-- The first ticks of all windows. -/
def windowStarts (total : Nat) : List Nat :=
  (List.range ((total + windowTicks - 1) / windowTicks)).map (· * windowTicks)

/-- The key and the windows. -/
def timeline (color : Bool) (pids : List Int) (t : Timeline) : String :=
  "\nExecution Timeline:\n\nColor Key:\n" ++ key color pids ++ "\n" ++
    String.join ((windowStarts t.length).map (window color t))

end CpuScheduling.Report
