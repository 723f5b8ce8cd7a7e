import CpuScheduling.Simulation
/-!
The settings of a run. Raw numbers are put right, not refused: without a processor there is one,
without a quantum there is the default, and more processors than can be numbered become the most
that can.
-/
namespace CpuScheduling

structure Settings where
  algorithm : Algorithm := .fcfs
  cpus : Nat := 1
  cpus_pos : 0 < cpus := by decide
  quantum : Nat := defaultQuantum
  /-- The explicit bound on the ticks of a run. -/
  limit : Option Nat := none

namespace Settings

def usableCpus (raw : Int) : Nat := if raw ≤ 0 then 1 else min raw.toNat maxCpus

theorem usableCpus_pos (raw : Int) : 0 < usableCpus raw := by
  unfold usableCpus maxCpus
  split <;> omega

/-- What is said about a raw number of processors. -/
def cpusNotices (raw : Int) : List Log.Notice :=
  if raw ≤ 0 then [.cpusNotPositive raw] else if maxCpus < raw.toNat then [.cpusTooMany raw] else []

def usableQuantum (raw : Int) : Nat := if raw ≤ 0 then defaultQuantum else raw.toNat

/-- What is said about a raw quantum. -/
def quantumNotices (raw : Int) : List Log.Notice :=
  if raw ≤ 0 then [.quantumNotPositive raw defaultQuantum] else []

/-- One setting changed; processors and quantum come as raw numbers. -/
inductive Change where
  | algorithm (a : Algorithm)
  | cpus (raw : Int)
  | quantum (raw : Int)
  | limit (ticks : Option Nat)
deriving DecidableEq

def apply (s : Settings) : Change → Settings
  | .algorithm a => { s with algorithm := a }
  | .cpus raw => { s with cpus := usableCpus raw, cpus_pos := usableCpus_pos raw }
  | .quantum raw => { s with quantum := usableQuantum raw }
  | .limit ticks => { s with limit := ticks }

/-- What is said about a change. -/
def Change.notices : Change → List Log.Notice
  | .cpus raw => cpusNotices raw
  | .quantum raw => quantumNotices raw
  | .algorithm _ | .limit _ => []

def discipline (s : Settings) : Discipline :=
  Discipline.setQuantum { algorithm := s.algorithm } s.quantum

/-- The scenario of some jobs under these settings. -/
def scenario (s : Settings) (jobs : List Job) : Scenario :=
  { cpus := s.cpus, cpus_pos := s.cpus_pos, jobs, limit := s.limit }

end Settings
end CpuScheduling
