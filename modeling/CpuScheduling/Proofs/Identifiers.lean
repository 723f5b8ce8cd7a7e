import CpuScheduling.Proofs.Execution
import CpuScheduling.Proofs.Retold
/-!
Identifiers. A process is known by its slot; what it is called is written into the records, the
rows and the events, and decides nothing. So the runs on scenarios that differ in their identifiers
only are one run that speaks of slots, told with the identifiers of each.
-/
namespace CpuScheduling

/-- A record without its identifier. -/
def ProcessRecord.anonymous (p : ProcessRecord) : ProcessRecord := { p with pid := 0 }

namespace Retelling
variable (name : Int → Int)

/-- Other identifiers only. -/
def renamed : Retelling := ⟨Equiv.refl Nat, name, 0⟩

theorem keepsTies_renamed (algorithm : Algorithm) (jobs : List Job) :
    (renamed name).KeepsTies algorithm jobs := by
  intro i j a b _ _ _ before
  exact before

@[simp] theorem place_renamed (slot : Nat) : (renamed name).place slot = slot := rfl

@[simp] theorem anonymous_record_renamed (p : ProcessRecord) :
    ((renamed name).record p).anonymous = p.anonymous := by
  simp [ProcessRecord.anonymous, record, job, renamed]

@[simp] theorem cpu_renamed : (renamed name).cpu = id := by
  funext c
  simp [cpu, renamed]

theorem ending_renamed (e : Ending) : (renamed name).ending e = e := by
  cases e <;> rfl

theorem rows_renamed (width : Nat) (rows : Array (List Cell)) :
    (renamed name).rows width rows = rows.map (renamed name).row :=
  Array.empty_append

end Retelling

namespace Scenario

/-- The same jobs under other identifiers. -/
def renamed (name : Int → Int) (s : Scenario) : Scenario :=
  { s with jobs := s.jobs.map fun j => { j with pid := name j.pid } }

/-- The same jobs, all with one identifier. -/
def anonymous : Scenario → Scenario := renamed fun _ => 0

/-- The same jobs, each called by its slot. -/
def numbered (s : Scenario) : Scenario :=
  { s with jobs := s.jobs.mapIdx fun slot j => { j with pid := slot } }

/-- What the process in a slot is called. -/
def pidAt (s : Scenario) (slot : Nat) : Int := s.jobs[slot]?.elim 0 (·.pid)

variable {s s' : Scenario}

theorem bound_renamed (name : Int → Int) (s : Scenario) : (s.renamed name).bound = s.bound := by
  simp [bound, horizon, lastArrival, totalBurst, renamed, List.foldl_map]

/-- Scenarios that differ in their identifiers only are one that calls jobs by their slots. -/
theorem eq_renamed_numbered (alike : s'.anonymous = s.anonymous) :
    s' = s.numbered.renamed fun i => s'.pidAt i.toNat := by
  have cpus : s'.cpus = s.cpus := congrArg (·.cpus) alike
  have limit : s'.limit = s.limit := congrArg (·.limit) alike
  have jobs : s'.jobs = (s.numbered.renamed fun i => s'.pidAt i.toNat).jobs := by
    refine List.ext_getElem? fun slot => ?_
    have same : s'.anonymous.jobs[slot]? = s.anonymous.jobs[slot]? := by rw [alike]
    simp only [anonymous, renamed, List.getElem?_map] at same
    simp only [renamed, numbered, List.getElem?_map, List.getElem?_mapIdx]
    cases found : s.jobs[slot]? with
    | none => simpa [found] using same
    | some j =>
      cases found' : s'.jobs[slot]? with
      | none => simp [found, found'] at same
      | some j' =>
        obtain ⟨pid', arrival', burst', priority'⟩ := j'
        simpa [found, found', pidAt] using same
  cases s'
  cases cpus
  cases limit
  simpa [renamed, numbered] using jobs

end Scenario

namespace Machine

/-- The run on renamed jobs is the run on the jobs with the names changed. -/
theorem simulate_renamed (d : Discipline) (name : Int → Int) (s : Scenario) :
    Retold (.renamed name) (simulate d s).machine (simulate d (s.renamed name)).machine ∧
      (simulate d (s.renamed name)).ending = (simulate d s).ending := by
  have start : Retold (.renamed name) (begun d s) (begun d (s.renamed name)) := by
    refine retold_begun d rfl (List.length_map _) (fun slot => ?_) rfl
    rw [Scenario.renamed, List.getElem?_map]
    rfl
  obtain ⟨told, ending⟩ := simulate_retold d (s.bound_renamed name)
    (Retelling.keepsTies_renamed name d.algorithm s.jobs) start nofun
  exact ⟨told, ending.trans (Retelling.ending_renamed ..)⟩

/-- What a run names under every renaming that leaves the jobs alone is the name of a job. -/
theorem exists_job_of_fixed {s : Scenario} {pid : Int}
    (fixed : ∀ name : Int → Int, s.renamed name = s → name pid = pid) :
    ∃ job ∈ s.jobs, job.pid = pid := by
  by_contra absent
  have kept : ∀ job ∈ s.jobs, Function.update id pid (pid + 1) job.pid = job.pid :=
    fun job member => Function.update_of_ne (fun same => absent ⟨job, member, same⟩) ..
  have same : s.renamed (Function.update id pid (pid + 1)) = s := by
    have jobs := List.map_congr_left fun job member =>
      congrArg (fun pid => { job with pid }) (kept job member)
    rw [Scenario.renamed, jobs, List.map_id']
  have moved := fixed _ same
  rw [Function.update_self] at moved
  omega

variable {d : Discipline} {s : Scenario}

/-- Every event of a run names a job. -/
theorem exists_job_of_recorded {e : Event} (recorded : e ∈ (simulate d s).machine.trace.toList) :
    ∃ job ∈ s.jobs, job.pid = e.pid := by
  refine exists_job_of_fixed fun name same => ?_
  have told := congrArg Array.toList (simulate_renamed d name s).1.trace
  rw [same, Array.toList_map] at told
  have unchanged := List.map_inj_left.1 (told.symm.trans (List.map_id _).symm) e recorded
  exact congrArg (·.pid) unchanged

/-- Every row of a run shows jobs. -/
theorem exists_job_of_shown {row : List Cell} {pid : Int}
    (recorded : row ∈ (simulate d s).machine.timeline.rows.toList) (shown : some pid ∈ row) :
    ∃ job ∈ s.jobs, job.pid = pid := by
  refine exists_job_of_fixed fun name same => ?_
  have told := (simulate_renamed d name s).1.timeline.rows
  rw [same, Retelling.rows_renamed] at told
  have told := congrArg Array.toList told
  rw [Array.toList_map] at told
  have unchanged : row.map (Option.map name) = row :=
    List.map_inj_left.1 (told.symm.trans (List.map_id _).symm) row recorded
  exact Option.some.inj (List.map_inj_left.1 (unchanged.trans (List.map_id _).symm) _ shown)

/-! The run that speaks of slots. -/

theorem mem_numbered {job : Job} (member : job ∈ s.numbered.jobs) :
    ∃ slot < s.jobs.length, job.pid = slot := by
  obtain ⟨slot, inside, rfl⟩ := List.mem_mapIdx.1 member
  exact ⟨slot, inside, rfl⟩

/-- An event that names a slot. -/
structure SlotEvent where
  tick : Nat
  cpu : Nat
  kind : Event.Kind
  slot : Nat

/-- The event with the identifier that is given to the slot. -/
def SlotEvent.named (pid : Nat → Int) (e : SlotEvent) : Event := ⟨e.tick, e.cpu, e.kind, pid e.slot⟩

/-- The events of the run that calls each process by its slot. -/
def slotLog (d : Discipline) (s : Scenario) : List SlotEvent :=
  (simulate d s.numbered).machine.trace.toList.map fun e => ⟨e.tick, e.cpu, e.kind, e.pid.toNat⟩

/-- The rows of the run that calls each process by its slot. -/
def slotGrid (d : Discipline) (s : Scenario) : List (List (Option Nat)) :=
  (simulate d s.numbered).machine.timeline.rows.toList.map fun row => row.map (·.map Int.toNat)

theorem slot_lt_of_mem_slotLog {e : SlotEvent} (member : e ∈ slotLog d s) :
    e.slot < s.jobs.length := by
  obtain ⟨e, recorded, rfl⟩ := List.mem_map.1 member
  obtain ⟨job, in_table, pid⟩ := exists_job_of_recorded recorded
  obtain ⟨slot, inside, called⟩ := mem_numbered in_table
  simpa [← pid, called] using inside

theorem slot_lt_of_mem_slotGrid {row : List (Option Nat)} {slot : Nat}
    (member : row ∈ slotGrid d s) (shown : some slot ∈ row) : slot < s.jobs.length := by
  obtain ⟨row, recorded, rfl⟩ := List.mem_map.1 member
  obtain ⟨cell, in_row, cell_eq⟩ := List.mem_map.1 shown
  obtain ⟨pid, rfl, rfl⟩ := Option.map_eq_some_iff.1 cell_eq
  obtain ⟨job, in_table, same⟩ := exists_job_of_shown recorded in_row
  obtain ⟨slot, inside, called⟩ := mem_numbered in_table
  simpa [← same, called] using inside

/-- A run on some jobs spells out the run that speaks of slots: all is the same but the identifiers,
and what names one there has the identifier of the job in the slot. -/
structure Spells (d : Discipline) (s s' : Scenario) : Prop where
  records : (simulate d s').machine.procs.map (·.anonymous) =
    (simulate d s.numbered).machine.procs.map (·.anonymous)
  cpus : (simulate d s').machine.cpus = (simulate d s.numbered).machine.cpus
  totalTicks : (simulate d s').totalTicks = (simulate d s.numbered).totalTicks
  ending : (simulate d s').ending = (simulate d s.numbered).ending
  dropped : (simulate d s').machine.dropped = (simulate d s.numbered).machine.dropped
  trace : (simulate d s').machine.trace.toList = (slotLog d s).map (·.named s'.pidAt)
  rows : (simulate d s').machine.timeline.rows.toList =
    (slotGrid d s).map fun row => row.map (·.map s'.pidAt)

theorem spells (d : Discipline) {s s' : Scenario} (alike : s'.anonymous = s.anonymous) :
    Spells d s s' := by
  obtain ⟨told, ending⟩ := simulate_renamed d (fun i => s'.pidAt i.toNat) s.numbered
  rw [← Scenario.eq_renamed_numbered alike] at told ending
  constructor
  case records =>
    refine List.ext_getElem? fun slot => ?_
    have same := congrArg (Option.map (·.anonymous)) (told.procs slot)
    rw [Option.map_map] at same
    simpa [Function.comp_def] using same
  case cpus => simpa using told.cpus
  case totalTicks => exact told.now
  case ending => exact ending
  case dropped => exact told.dropped
  case trace =>
    rw [told.trace]
    simp [slotLog, SlotEvent.named, Retelling.event, Retelling.renamed]
  case rows =>
    rw [told.timeline.rows, Retelling.rows_renamed]
    simp [slotGrid, Retelling.row, Retelling.renamed, Function.comp_def]

/-- Two runs on scenarios that differ in nothing but identifiers are index by index alike in all
that is not one, and there are one list of events and one list of rows that speak of slots, from
which each run has its events and its rows by writing for every slot what the process in it is
called there. -/
theorem identifiers_never_matter (d : Discipline) {s s' : Scenario}
    (alike : s'.anonymous = s.anonymous) :
    let o := simulate d s
    let o' := simulate d s'
    o'.machine.procs.map (·.anonymous) = o.machine.procs.map (·.anonymous) ∧
      o'.machine.cpus = o.machine.cpus ∧ o'.totalTicks = o.totalTicks ∧ o'.ending = o.ending ∧
      o'.machine.dropped = o.machine.dropped ∧
      ∃ (log : List SlotEvent) (grid : List (List (Option Nat))),
        (∀ e ∈ log, e.slot < s.jobs.length) ∧
        (∀ row ∈ grid, ∀ slot, some slot ∈ row → slot < s.jobs.length) ∧
        o.machine.trace.toList = log.map (·.named s.pidAt) ∧
        o'.machine.trace.toList = log.map (·.named s'.pidAt) ∧
        o.machine.timeline.rows.toList = (grid.map fun row => row.map (·.map s.pidAt)) ∧
        o'.machine.timeline.rows.toList = grid.map fun row => row.map (·.map s'.pidAt) := by
  have first : Spells d s s := spells d rfl
  have second : Spells d s s' := spells d alike
  refine ⟨second.records.trans first.records.symm, second.cpus.trans first.cpus.symm,
    second.totalTicks.trans first.totalTicks.symm, second.ending.trans first.ending.symm,
    second.dropped.trans first.dropped.symm, slotLog d s, slotGrid d s, ?_, ?_, first.trace,
    second.trace, first.rows, second.rows⟩
  · exact fun e member => slot_lt_of_mem_slotLog member
  · exact fun row member slot shown => slot_lt_of_mem_slotGrid member shown

/-- Two of three processes share an identifier, or each is called by its slot. -/
theorem identifiers_never_matter_shared :
    let s := sharedPid
    let o := simulate ⟨.roundRobin, 1⟩ s
    let o' := simulate ⟨.roundRobin, 1⟩ s.numbered
    s.numbered.anonymous = s.anonymous ∧
      o'.machine.procs.map (·.anonymous) = o.machine.procs.map (·.anonymous) ∧
      o'.machine.cpus = o.machine.cpus ∧
      o.machine.trace.toList.map (·.pid) = [1, 1, 1, 1, 2, 1, 2, 1, 1, 1, 1, 1] ∧
      o'.machine.trace.toList.map (·.pid) = [0, 1, 0, 1, 2, 0, 2, 0, 1, 1, 1, 1] := by
  intro s o o'
  have alike : s.numbered.anonymous = s.anonymous := by decide
  obtain ⟨records, cpus, -⟩ := identifiers_never_matter ⟨.roundRobin, 1⟩ alike
  exact ⟨alike, records, cpus, by decide +kernel, by decide +kernel⟩

end Machine
end CpuScheduling
