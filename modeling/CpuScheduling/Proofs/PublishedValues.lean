import CpuScheduling.Proofs.SeparatedValues
import CpuScheduling.Proofs.ShortestNext
/-!
Published values. A reader of comma-separated values who takes them apart at empty lines, newlines
and commas finds the jobs of all processes in their order, the five times of every process that has
completed, and what each processor counted. For that a process has all five times once it has
completed, and its finish only then.
-/
namespace CpuScheduling

namespace ProcessRecord
variable {p : ProcessRecord}

/-- A finish is written with the completion. -/
theorem isSome_finish_pass (now : Nat) (finalized : p.finish.isSome = p.isCompleted) :
    (p.pass now).finish.isSome = (p.pass now).isCompleted := by
  unfold pass
  split
  next =>
    by_cases last : p.remaining ≤ 1
    · rw [work_of_last now last]
      rfl
    · rw [work_of_more now (Nat.lt_of_not_le last)]
      exact finalized
  next =>
    unfold ageWaiting
    split <;> exact finalized

/-- The times of a process are in order: it has its finish if and only if it has completed, it has
started if it runs or has completed, and it responded when it started. -/
structure WellTimed (p : ProcessRecord) : Prop where
  finalized : p.finish.isSome = p.isCompleted
  first : p.StartsFirst
  responsive : p.Responsive

/-- A process has no finish, or it has completed and has all times. -/
theorem WellTimed.cases (timed : p.WellTimed) : p.isCompleted = false ∧ p.finish = none ∨
    p.isCompleted = true ∧ ∃ t e, p.start = some t ∧ p.finish = some e ∧
      p.response = some (t - p.arrival) := by
  obtain ⟨finalized, first, responsive⟩ := timed
  cases ends : p.finish with
  | none =>
    rw [ends] at finalized
    exact .inl ⟨finalized.symm, rfl⟩
  | some e =>
    rw [ends] at finalized
    have done : p.isCompleted = true := finalized.symm
    obtain ⟨t, started⟩ := first.started_of_completed (of_decide_eq_true done)
    rw [ProcessRecord.Responsive, started] at responsive
    exact .inr ⟨done, t, e, started, rfl, responsive⟩

end ProcessRecord

namespace Machine
variable {m : Machine}

/-- Who has a finish has completed. -/
def Finalized (m : Machine) : Prop := ∀ a ∈ m.accounts, a.finish.isSome = a.completed

theorem Finalized.step (finalized : m.Finalized) (rest : AtRest m) : m.step.Finalized := by
  intro a member
  rw [accounts, rest.procs_step, List.map_map] at member
  obtain ⟨p, before, rfl⟩ := List.mem_map.1 member
  exact ProcessRecord.isSome_finish_pass m.now (finalized _ (rest.account_mem before))

theorem Finalized.steps (finalized : m.Finalized) (rest : AtRest m) (n : Nat) :
    (m.steps n).Finalized := by
  induction n with
  | zero => exact finalized
  | succ n ih =>
    rw [steps_succ]
    exact ih.step (rest.steps n)

theorem wellTimed_simulate (d : Discipline) (s : Scenario) :
    ∀ p ∈ (simulate d s).machine.procs, p.WellTimed := by
  have rest := atRest_begun d s
  have fresh : ∀ q ∈ (begun d s).procs, q = q.toJob.toRecord := fresh_boot s d.policy
  have finalized : (begun d s).Finalized := by
    intro a inside
    obtain ⟨q, before, rfl⟩ := List.mem_map.1 inside
    rw [fresh q before]
    rfl
  have first : ∀ q ∈ (begun d s).procs, q.StartsFirst := by
    intro q before _
    rw [fresh q before]
    exact .inl rfl
  have responsive : ∀ q ∈ (begun d s).procs, q.Responsive := by
    intro q before
    rw [fresh q before]
    rfl
  refine forall_procs_simulate fun n slot p found => ?_
  have member := List.mem_of_getElem? found
  exact ⟨finalized.steps rest n _ (List.mem_map_of_mem member),
    rest.enduring_steps ProcessRecord.enduring_startsFirst first n p member,
    rest.enduring_steps ProcessRecord.enduring_responsive responsive n p member⟩

/-- A run changes neither the jobs nor the number of processors. -/
theorem jobs_simulate (d : Discipline) (s : Scenario) :
    (simulate d s).machine.jobs = s.jobs ∧ (simulate d s).machine.cpus.size = s.cpus := by
  have rest := atRest_begun d s
  rw [machine_simulate]
  exact ⟨(rest.jobs_steps _).trans (jobs_begun d s),
    (rest.size_cpus_steps _).trans (size_cpus_begun d s)⟩

end Machine

namespace Report

/-! What a reader looks for. -/

/-- The times of a completed process. -/
structure Times where
  start : Nat
  finish : Nat
  turnaround : Nat
  waiting : Nat
  response : Nat
deriving DecidableEq

/-- What is published of a process: its job, and its times once it has completed. -/
structure ProcessEntry extends Job where
  times : Option Times
deriving DecidableEq

/-- What is published of a processor, but for its utilization. -/
structure CpuEntry where
  cpu : Nat
  busy : Nat
  idle : Nat
deriving DecidableEq

/-- All that is published, but for what is no whole number. -/
structure Published where
  processes : List ProcessEntry
  cpus : List CpuEntry
deriving DecidableEq

/-- The times of a process that has all of them. -/
def times? (p : ProcessRecord) : Option Times := do
  pure ⟨← p.start, ← p.finish, ← p.turnaround, ← p.netWaiting, ← p.response⟩

def processEntry (p : ProcessRecord) : ProcessEntry := { p.toJob with times := times? p }

def cpuEntry (c : CpuStatistics) : CpuEntry := ⟨c.cpu, c.busy, c.idle⟩

/-- What there is to publish of a machine. -/
def published (m : Machine) : Published where
  processes := m.procs.map processEntry
  cpus := m.cpus.toList.zipIdx.map fun (c, cpu) => ⟨cpu, c.busy, c.idle⟩

/-- Five times, or five times the word for none. -/
def readTimes? (fields : List (List Char)) : Option (Option Times) :=
  if fields = List.replicate 5 "N/A".toList then some none
  else
    match fields with
    | [start, finish, turnaround, waiting, response] => do
      pure (some ⟨← Text.natural? start, ← Text.natural? finish, ← Text.natural? turnaround,
        ← Text.natural? waiting, ← Text.natural? response⟩)
    | _ => none

def readProcess? (line : List Char) : Option ProcessEntry :=
  match line.splitOn ',' with
  | pid :: arrival :: burst :: priority :: times => do
    pure { pid := ← Text.integer? pid, arrival := ← Text.natural? arrival,
           burst := ← Text.natural? burst, priority := ← Text.integer? priority,
           times := ← readTimes? times }
  | _ => none

/-- The first three of the fields of a processor. -/
def readCpu? (line : List Char) : Option CpuEntry :=
  match line.splitOn ',' with
  | cpu :: busy :: idle :: _ => do
    pure ⟨← Text.natural? cpu, ← Text.natural? busy, ← Text.natural? idle⟩
  | _ => none

/-- Three datasets, each with its title and the names of its fields before its rows. -/
def readCsv? (text : String) : Option Published :=
  match paragraphs (text.toList.splitOn '\n') with
  | [title :: _ :: processes, title' :: _ :: cpus, title'' :: _] =>
    if title = "Process Stats (CSV):".toList ∧ title' = "CPU Stats (CSV):".toList ∧
        title'' = "Average Stats (CSV):".toList then do
      pure ⟨← processes.mapM readProcess?, ← cpus.mapM readCpu?⟩
    else none
  | _ => none

/-! Fields. -/

/-- The fields for the times of a process. -/
def timesFields : Option Times → List String
  | some t =>
    [t.start.repr, t.finish.repr, t.turnaround.repr, t.waiting.repr, t.response.repr]
  | none => List.replicate 5 notApplicable

theorem readTimes?_timesFields (times : Option Times) :
    readTimes? ((timesFields times).map String.toList) = some times := by
  cases times with
  | none => exact if_pos rfl
  | some t =>
    have given : t.start.repr.toList ≠ "N/A".toList := by
      intro same
      have absent : Text.natural? "N/A".toList = none := by decide
      rw [← same, Text.natural?_repr] at absent
      cases absent
    have apart : (timesFields (some t)).map String.toList ≠ List.replicate 5 "N/A".toList :=
      fun same => given (List.cons.inj same).1
    unfold readTimes?
    rw [if_neg apart]
    simp only [timesFields, List.map_cons, List.map_nil, Text.natural?_repr]
    rfl

/-- The nine fields of a process. -/
def entryFields (e : ProcessEntry) : List String :=
  [e.pid.repr, e.arrival.repr, e.burst.repr, e.priority.repr] ++ timesFields e.times

/-- Times are shown all together or not at all. -/
theorem processFields_eq {p : ProcessRecord} (timed : p.WellTimed) :
    processFields (.ofRecord p) = entryFields (processEntry p) := by
  rcases timed.cases with ⟨-, ends⟩ | ⟨-, t, e, started, ends, responded⟩
  · simp [processFields, ProcessStatistics.ofRecord, ProcessStatistics.isCompleted, whenDone,
      ProcessRecord.turnaround, ProcessRecord.netWaiting, entryFields, processEntry, times?,
      timesFields, ends, timeField]
  · simp [processFields, ProcessStatistics.ofRecord, ProcessStatistics.isCompleted, whenDone,
      ProcessRecord.turnaround, ProcessRecord.netWaiting, entryFields, processEntry, times?,
      timesFields, ends, started, responded, timeField]

theorem isSome_times? {p : ProcessRecord} (timed : p.WellTimed) :
    (times? p).isSome = p.isCompleted := by
  rcases timed.cases with ⟨going, ends⟩ | ⟨done, t, e, started, ends, responded⟩
  · simp [times?, going, ends, ProcessRecord.turnaround]
  · simp [times?, done, ends, started, responded, ProcessRecord.turnaround,
      ProcessRecord.netWaiting]

theorem readProcess?_csvLine {p : ProcessRecord} (timed : p.WellTimed) :
    readProcess? (csvLine (processFields (.ofRecord p))).toList = some (processEntry p) := by
  rw [readProcess?, splitOn_csvLine (regular_processFields _), processFields_eq timed]
  simp only [entryFields, List.cons_append, List.nil_append, List.map_cons, Text.natural?_repr,
    Text.integer?_repr, readTimes?_timesFields]
  rfl

theorem readCpu?_csvLine (c : CpuStatistics) :
    readCpu? (csvLine (cpuFields c)).toList = some (cpuEntry c) := by
  rw [readCpu?, splitOn_csvLine (regular_cpuFields c)]
  simp only [cpuFields, List.map_cons, Text.natural?_repr]
  rfl

/-! Datasets. -/

/-- Rows are read one by one. -/
theorem mapM_csvLine {α β : Type} {read : List Char → Option β} {row : α → List String}
    {value : α → β} {l : List α} (each : ∀ a ∈ l, read (csvLine (row a)).toList = some (value a)) :
    (((l.map row).map csvLine).map String.toList).mapM read = some (l.map value) := by
  rw [List.map_map, List.map_map, List.mapM_map]
  exact mapM_eq each

/-- Values with rows in every dataset are read back, if the times of all processes are in order. -/
theorem readCsv?_csvBy {w : CsvWriter} (lawful : w.Lawful) {s : Statistics}
    {procs : List ProcessRecord} (processes : s.processes = procs.map .ofRecord)
    (timed : ∀ p ∈ procs, p.WellTimed) (some_process : procs ≠ []) (some_cpu : s.cpus ≠ []) :
    readCsv? (csvBy w s) = some ⟨procs.map processEntry, s.cpus.map cpuEntry⟩ := by
  have some_row : ∀ d ∈ datasets s, d.rows ≠ [] := by
    rw [forall_datasets]
    refine ⟨?_, mt List.map_eq_nil_iff.1 some_cpu, List.cons_ne_nil _ _⟩
    rw [processDataset, processes, List.map_map]
    exact mt List.map_eq_nil_iff.1 some_process
  have entries : (((procs.map fun p => processFields (.ofRecord p)).map csvLine).map
      String.toList).mapM readProcess? = some (procs.map processEntry) :=
    mapM_csvLine fun p member => readProcess?_csvLine (timed p member)
  have cpus := mapM_csvLine fun c (_ : c ∈ s.cpus) => readCpu?_csvLine c
  rw [readCsv?, paragraphs_csvBy lawful some_row]
  simp only [datasets, processDataset, cpuDataset, averageDataset, Dataset.lines, List.map_cons,
    List.map_nil, and_self, if_true, processes, List.map_map, Function.comp_def] at entries cpus ⊢
  rw [entries, cpus]
  rfl

theorem readCsv?_simulate {w : CsvWriter} (lawful : w.Lawful) (d : Discipline) (s : Scenario)
    (some_job : s.jobs ≠ []) :
    readCsv? (csvBy w (.ofOutcome (simulate d s))) = some (published (simulate d s).machine) := by
  obtain ⟨jobs, size⟩ := Machine.jobs_simulate d s
  have some_process : (simulate d s).machine.procs ≠ [] := by
    intro nobody
    rw [← jobs, Machine.jobs, nobody] at some_job
    exact some_job rfl
  have some_cpu : (simulate d s).machine.cpus.toList.zipIdx ≠ [] := by
    rw [← List.length_pos_iff, List.length_zipIdx, Array.length_toList, size]
    exact s.cpus_pos
  have read := readCsv?_csvBy lawful (s := .ofOutcome (simulate d s)) rfl
    (Machine.wellTimed_simulate d s) some_process (mt List.map_eq_nil_iff.1 some_cpu)
  rw [read, Statistics.ofOutcome, List.map_map]
  rfl

/-- Whatever a run leaves of one or more processes, its comma-separated values show: their jobs in
order, the five times of each that has completed and of no other, and the counts of every processor.
So runs with the same values agree on all of them. -/
theorem csv_read_back {w : CsvWriter} (lawful : w.Lawful) (d : Discipline) (s : Scenario)
    (some_job : s.jobs ≠ []) :
    let o := simulate d s
    readCsv? (csvBy w (.ofOutcome o)) = some (published o.machine) ∧
      (o.machine.jobs = s.jobs ∧ o.machine.cpus.size = s.cpus ∧
        ∀ p ∈ o.machine.procs, (times? p).isSome = true ↔ p.status = .completed) ∧
      ∀ d' s', s'.jobs ≠ [] → csvBy w (.ofOutcome (simulate d' s')) = csvBy w (.ofOutcome o) →
        published (simulate d' s').machine = published o.machine := by
  intro o
  have read := readCsv?_simulate lawful d s some_job
  obtain ⟨jobs, size⟩ := Machine.jobs_simulate d s
  refine ⟨read, ⟨jobs, size, fun p member => ?_⟩, fun d' s' some_job' same => ?_⟩
  · rw [isSome_times? (Machine.wellTimed_simulate d s p member), ProcessRecord.isCompleted,
      decide_eq_true_eq]
  · have read' := readCsv?_simulate lawful d' s' some_job'
    rw [same, read] at read'
    exact (Option.some.inj read').symm

/-- A run that ends after two ticks, by the writer in use: the shorter job has taken the processor
and completed, the longer one has started and shows no time. -/
theorem csv_read_back_cut_off :
    let s := { Machine.shorterArrival with limit := some 2 }
    sparingWriter.Lawful ∧ s.jobs ≠ [] ∧ readCsv? (csv (.ofOutcome (simulate ⟨.srtf, 2⟩ s))) =
      some ⟨[⟨⟨1, 0, 3, 0⟩, none⟩, ⟨⟨2, 1, 1, 0⟩, some ⟨1, 2, 1, 0, 0⟩⟩], [⟨0, 2, 0⟩]⟩ := by
  intro s
  have values : published (simulate ⟨.srtf, 2⟩ s).machine =
      ⟨[⟨⟨1, 0, 3, 0⟩, none⟩, ⟨⟨2, 1, 1, 0⟩, some ⟨1, 2, 1, 0, 0⟩⟩], [⟨0, 2, 0⟩]⟩ := by
    decide +kernel
  have some_job : s.jobs ≠ [] := List.cons_ne_nil _ _
  exact ⟨lawful_sparingWriter, some_job,
    (csv_read_back lawful_sparingWriter ⟨.srtf, 2⟩ s some_job).1.trans (congrArg some values)⟩

end Report
end CpuScheduling
