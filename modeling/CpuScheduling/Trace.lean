import CpuScheduling.Text.Padded
import CpuScheduling.Units
/-!
The trace of a run: what happened on which processor, in order. A completion carries the tick at
which the last unit of work ended.
-/
namespace CpuScheduling

inductive Event.Kind where
  | dispatched
  /-- Evicted by a shorter job. -/
  | preempted
  /-- Evicted at the end of its quantum. -/
  | expired
  | completed
deriving DecidableEq

structure Event where
  tick : Nat
  cpu : Nat
  kind : Event.Kind
  pid : Int
deriving DecidableEq

/-- The word for a kind of event, all of one width. -/
def Event.Kind.word : Event.Kind → String
  | .dispatched => "DISPATCH"
  | .preempted => "PREEMPT "
  | .expired => "EXPIRE  "
  | .completed => "COMPLETE"

/-- One event in one line. -/
def Event.line (e : Event) : String :=
  "[" ++ Text.padLeft 8 e.tick.repr ++ "] cpu=" ++ e.cpu.repr ++ " " ++ e.kind.word ++ " pid=" ++
    e.pid.repr

/-- The events of a run in the order in which they happened. -/
abbrev Trace := Array Event

namespace Trace

/-- The running total of a process: ticks in closed intervals, and the start of an open one. -/
structure Tally where
  total : Nat := 0
  since : Option Nat := none

/-- A dispatch opens an interval; any other event closes it. -/
def Tally.note (t : Tally) (e : Event) : Tally :=
  match e.kind with
  | .dispatched => { t with since := some e.tick }
  | .preempted | .expired | .completed =>
    match t.since with
    | some start => { total := t.total + (e.tick - start), since := none }
    | none => t

/-- The ticks that the processes of one identifier spent between a dispatch and the event that
ended it. -/
def cpuTime (trace : Trace) (pid : Int) : Nat :=
  (trace.foldl (fun tally e => if e.pid = pid then tally.note e else tally) ({} : Tally)).total

/-- How many events of one kind name an identifier. -/
def count (trace : Trace) (kind : Event.Kind) (pid : Int) : Nat :=
  trace.countP fun e => decide (e.kind = kind) && e.pid == pid

/-- The events, one a line. -/
def text (trace : Trace) : String := Text.unlines (trace.toList.map Event.line)

end Trace
end CpuScheduling
