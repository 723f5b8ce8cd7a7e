import CpuScheduling.Units
import CpuScheduling.Policy
import CpuScheduling.Timeline
import CpuScheduling.Trace
import CpuScheduling.Decimal.Fixed
import CpuScheduling.Text.Split
import CpuScheduling.Text.Numeral
import CpuScheduling.Simulation
import CpuScheduling.Scenario.Draft
import CpuScheduling.Report
import CpuScheduling.Workload.Text
import CpuScheduling.Workload.Pattern
import CpuScheduling.Settings
import CpuScheduling.FileTree
import CpuScheduling.Main
import CpuScheduling.Proofs.Occupancy
import CpuScheduling.Proofs.Accounting
import CpuScheduling.Proofs.Turns
import CpuScheduling.Proofs.Completion
import CpuScheduling.Proofs.Rows
import CpuScheduling.Proofs.Conservation
import CpuScheduling.Proofs.Replay
import CpuScheduling.Proofs.Least
import CpuScheduling.Proofs.Eviction
import CpuScheduling.Proofs.ListSchedule
import CpuScheduling.Proofs.FirstCome
import CpuScheduling.Proofs.Simultaneous
import CpuScheduling.Proofs.LongQuantum
import CpuScheduling.Proofs.Pace
import CpuScheduling.Proofs.Safety
import CpuScheduling.Proofs.Execution
import CpuScheduling.Proofs.Waiting
import CpuScheduling.Proofs.Overflow
import CpuScheduling.Proofs.Dispatches
import CpuScheduling.Proofs.Lifecycle
import CpuScheduling.Proofs.Relief
import CpuScheduling.Proofs.Truncation
import CpuScheduling.Proofs.CpuTime
import CpuScheduling.Proofs.ShortestFirst
import CpuScheduling.Proofs.Retelling
import CpuScheduling.Proofs.Retold
import CpuScheduling.Proofs.TableOrder
import CpuScheduling.Proofs.Identifiers
import CpuScheduling.Proofs.Shift
import CpuScheduling.Proofs.Words
import CpuScheduling.Proofs.WrittenWorkload
import CpuScheduling.Proofs.LineGrammar
import CpuScheduling.Proofs.LineByLine
import CpuScheduling.Proofs.Preemption
import CpuScheduling.Proofs.ExactSlices
import CpuScheduling.Proofs.Table
import CpuScheduling.Proofs.Recording
import CpuScheduling.Proofs.Promptness
import CpuScheduling.Proofs.WholeRuns
import CpuScheduling.Proofs.ShortestNext
import CpuScheduling.Proofs.Characters
import CpuScheduling.Proofs.DrawnTimeline
import CpuScheduling.Proofs.Colour
import CpuScheduling.Proofs.SeparatedValues
import CpuScheduling.Proofs.PublishedValues
import CpuScheduling.Proofs.Aggregates
import CpuScheduling.Proofs.Ranking
import CpuScheduling.Proofs.Drafts
import CpuScheduling.Proofs.Patterns
import CpuScheduling.Proofs.PrintedTrace
import CpuScheduling.Proofs.Challenge
import CpuScheduling.Proofs.Samples
import CpuScheduling.Proofs.Stamps
