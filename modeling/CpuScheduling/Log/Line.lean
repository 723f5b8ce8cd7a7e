import CpuScheduling.Log.Stamp
import CpuScheduling.Text.Quoted
/-!
Log lines: a tick stamp, a level, a message, and fields. A line is shown when its level is at
least as severe as the threshold.
-/
namespace CpuScheduling.Log

inductive Level where
  | error
  | warn
  | info
  | debug
  | trace
deriving DecidableEq

namespace Level

/-- Zero for the most severe level. -/
def rank : Level → Nat
  | .error => 0
  | .warn => 1
  | .info => 2
  | .debug => 3
  | .trace => 4

def name : Level → String
  | .error => "ERROR"
  | .warn => "WARN"
  | .info => "INFO"
  | .debug => "DEBUG"
  | .trace => "TRACE"

/-- The escape sequence that starts the colour of a level. -/
def color : Level → String
  | .error => "\x1b[31m"
  | .warn => "\x1b[33m"
  | .info => "\x1b[32m"
  | .debug => "\x1b[34m"
  | .trace => "\x1b[35m"

/-- Whether a line of this level is shown; no threshold shows nothing. -/
def isShown (level : Level) : Option Level → Bool
  | some threshold => decide (level.rank ≤ threshold.rank)
  | none => false

end Level

/-- The value of a field. -/
inductive Value where
  | number (n : Int)
  /-- A text as it is. -/
  | text (s : String)
  /-- A text in quotes. -/
  | quoted (s : String)
  | flag (b : Bool)
deriving DecidableEq

def Value.render : Value → String
  | .number n => n.repr
  | .text s => s
  | .quoted s => Text.quote s
  | .flag b => if b then "true" else "false"

structure Line where
  level : Level
  message : String
  /-- The fields in the order in which they are shown, each under its name. -/
  fields : List (String × Value) := []
deriving DecidableEq

/-- The escape sequence that ends a colour. -/
def colorEnd : String := "\x1b[0m"

def Level.render (ansi : Bool) (level : Level) : String :=
  let name := Text.padLeft 5 level.name
  if ansi then level.color ++ name ++ colorEnd else name

def renderField (field : String × Value) : String := " " ++ field.1 ++ "=" ++ field.2.render

/-- A line as it stands in the log, its newline included. -/
def Line.render (ansi : Bool) (tick : Option Nat) (line : Line) : String :=
  "[" ++ stamp tick ++ "] " ++ line.level.render ansi ++ " " ++ line.message ++
    String.join (line.fields.map renderField) ++ "\n"

end CpuScheduling.Log
