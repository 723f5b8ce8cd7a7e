import CpuScheduling.Algorithm
import CpuScheduling.Log.Line
import CpuScheduling.ReadyQueue
import CpuScheduling.Workload.Line
/-!
Everything the program has to say while it works, by cause, and the line that says it.
-/
namespace CpuScheduling.Log

inductive Notice where
  | cpusNotPositive (raw : Int)
  | cpusTooMany (raw : Int)
  | quantumNotPositive (raw standard : Int)
  | lineSkipped (number : Nat) (cause : Workload.LineFault)
  | workloadRead (processes skipped : Nat)
  | runStarted (algorithm : Algorithm) (cpus processes : Nat)
  | arrived (pid : Int)
  | enqueueRefused (pid : Int) (cause : QueueOverflow)
  | quantumExpired (pid : Int) (cpu : Nat)
  | preempted (pid : Int) (cpu : Nat) (victor : Int)
  | dispatched (pid : Int) (cpu remaining : Nat)
  | timelineGrown (before after : Nat)
  | completed (pid : Int) (cpu : Nat)
  | runAborted (limit finished total : Nat)
  | runEnded (ticks finished : Nat)
deriving DecidableEq

/-- The line of a notice. -/
def Notice.line : Notice → Line
  | .cpusNotPositive raw =>
    { level := .warn, message := "CPU count must be positive, using 1"
      fields := [("cpus", .number raw)] }
  | .cpusTooMany raw =>
    { level := .warn, message := "CPU count too large, clamping"
      fields := [("cpus", .number raw)] }
  | .quantumNotPositive raw standard =>
    { level := .warn, message := "time quantum must be positive, using " ++ standard.repr
      fields := [("quantum", .number raw)] }
  | .lineSkipped number cause =>
    { level := .warn, message := "skipping workload line: " ++ cause.message
      fields := [("line", .number number)] }
  | .workloadRead processes skipped =>
    { level := .debug, message := "parsed workload"
      fields := [("processes", .number processes), ("skipped", .number skipped)] }
  | .runStarted algorithm cpus processes =>
    { level := .info, message := "simulation start"
      fields := [("algorithm", .text algorithm.code), ("cpus", .number cpus),
        ("processes", .number processes)] }
  | .arrived pid => { level := .debug, message := "arrived", fields := [("pid", .number pid)] }
  | .enqueueRefused pid cause =>
    { level := .warn, message := cause.message, fields := [("pid", .number pid)] }
  | .quantumExpired pid cpu =>
    { level := .debug, message := "quantum expired"
      fields := [("pid", .number pid), ("cpu", .number cpu)] }
  | .preempted pid cpu victor =>
    { level := .debug, message := "preempted"
      fields := [("pid", .number pid), ("cpu", .number cpu), ("by", .number victor)] }
  | .dispatched pid cpu remaining =>
    { level := .debug, message := "dispatch"
      fields := [("pid", .number pid), ("cpu", .number cpu), ("remaining", .number remaining)] }
  | .timelineGrown before after =>
    { level := .debug, message := "timeline grow"
      fields := [("from", .number before), ("to", .number after)] }
  | .completed pid cpu =>
    { level := .debug, message := "completed"
      fields := [("pid", .number pid), ("cpu", .number cpu)] }
  | .runAborted limit finished total =>
    { level := .warn, message := "simulation exceeded maximum expected time, aborting"
      fields := [("limit", .number limit), ("completed", .number finished),
        ("total", .number total)] }
  | .runEnded ticks finished =>
    { level := .info, message := "simulation end"
      fields := [("ticks", .number ticks), ("completed", .number finished)] }

end CpuScheduling.Log
