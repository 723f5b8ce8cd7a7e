import CpuScheduling.Scenario.Draft
import Mathlib.Data.List.Induction
/-!
Drafts. Whatever the steps of a construction are, the scenario keeps all their jobs in order, and a
job that comes without an identifier gets one that no job before it has, as long as none of those
has the greatest identifier there is.
-/
namespace CpuScheduling.Scenario.Draft
variable {d : Draft} {jobs : List Job}

/-- The identifier of an unnamed job behind some jobs: one more than the greatest of theirs, at
least one, and at most the greatest there is. -/
def pidAfter (jobs : List Job) : Int :=
  min ((jobs.map (·.pid)).max?.elim 1 fun greatest => max 1 (1 + greatest)) maxInt32

/-- The jobs that a step adds behind those that are there. -/
def Change.adds (earlier : List Job) : Change → List Job
  | .cpus _ | .limit _ => []
  | .job j => [j]
  | .jobs js => js
  | .unnamed arrival burst => [{ pid := pidAfter earlier, arrival, burst }]

/-- The jobs that there are when some steps have added theirs, one step after another. -/
def jobsAfter (earlier : List Job) (changes : List Change) : List Job :=
  changes.foldl (fun earlier c => earlier ++ c.adds earlier) earlier

/-- The number of processors that a step sets. -/
def Change.cpus? : Change → Option Nat
  | .cpus n => some n
  | .job _ | .jobs _ | .unnamed _ _ | .limit _ => none

/-- The bound that a step sets. -/
def Change.limit? : Change → Option Nat
  | .limit ticks => some ticks
  | .cpus _ | .job _ | .jobs _ | .unnamed _ _ => none

/-- What the last step that sets it has set. -/
def lastSet {α : Type} (set? : Change → Option α) (changes : List Change) : Option α :=
  changes.reverse.findSome? set?

/-! Identifiers. -/

theorem pidAfter_eq (jobs : List Job) :
    pidAfter jobs = min (1 + (jobs.map (·.pid)).foldl max 0) maxInt32 := by
  rw [pidAfter, List.foldl_max]
  cases (jobs.map (·.pid)).max? with
  | none => rfl
  | some greatest => simp only [Option.elim_some, Option.getD_some]; omega

theorem pidAfter_concat (jobs : List Job) (j : Job) :
    pidAfter (jobs ++ [j]) = max (pidAfter jobs) (min (j.pid + 1) maxInt32) := by
  simp only [pidAfter_eq, List.map_append, List.map_singleton, List.foldl_append, List.foldl_cons,
    List.foldl_nil]
  omega

/-- The identifier is new unless the greatest there is has been given before. -/
theorem pidAfter_fresh_iff (jobs : List Job) :
    (∀ j ∈ jobs, j.pid ≠ pidAfter jobs) ↔ ∀ j ∈ jobs, j.pid ≠ maxInt32 := by
  cases largest : (jobs.map (·.pid)).max? with
  | none =>
    obtain rfl : jobs = [] := List.map_eq_nil_iff.1 (List.max?_eq_none_iff.1 largest)
    exact ⟨nofun, nofun⟩
  | some greatest =>
    have given : pidAfter jobs = min (max 1 (1 + greatest)) maxInt32 := by
      rw [pidAfter, largest, Option.elim_some]
    have upto : ∀ j ∈ jobs, j.pid ≤ greatest := fun j member =>
      (List.max?_eq_some_iff.1 largest).2 _ (List.mem_map_of_mem member)
    -- Below the greatest identifier there is, the new one is above all; otherwise it is that one.
    by_cases room : greatest < maxInt32
    · have below : ∀ j ∈ jobs, j.pid ≠ pidAfter jobs := fun j member => by
        have := upto j member
        omega
      have below' : ∀ j ∈ jobs, j.pid ≠ maxInt32 := fun j member =>
        Int.ne_of_lt (Int.lt_of_le_of_lt (upto j member) room)
      exact iff_of_true below below'
    · have last : pidAfter jobs = maxInt32 := by omega
      rw [last]

/-! Steps. -/

/-- A draft that holds some jobs and is ready to name the next one. -/
structure Holds (d : Draft) (jobs : List Job) : Prop where
  jobs_eq : d.jobs.toList = jobs
  nextPid_eq : d.nextPid = pidAfter jobs

namespace Holds

theorem addJob (holds : d.Holds jobs) (j : Job) : (d.addJob j).Holds (jobs ++ [j]) where
  jobs_eq := by rw [Draft.addJob, Array.toList_push, holds.jobs_eq]
  nextPid_eq := by rw [Draft.addJob, holds.nextPid_eq, pidAfter_concat]

theorem addJobs (holds : d.Holds jobs) (js : List Job) :
    (js.foldl Draft.addJob d).Holds (jobs ++ js) := by
  induction js generalizing d jobs with
  | nil => rwa [List.append_nil]
  | cons j js ih =>
    rw [List.append_cons]
    exact ih (holds.addJob j)

theorem apply (holds : d.Holds jobs) (c : Change) : (d.apply c).Holds (jobs ++ c.adds jobs) := by
  cases c with
  | cpus n | limit ticks =>
    rw [Change.adds, List.append_nil]
    exact ⟨holds.jobs_eq, holds.nextPid_eq⟩
  | job j => exact holds.addJob j
  | jobs js => exact holds.addJobs js
  | unnamed arrival burst =>
    rw [Change.adds, ← holds.nextPid_eq]
    exact holds.addJob _

theorem applyAll (holds : d.Holds jobs) (changes : List Change) :
    (changes.foldl Draft.apply d).Holds (jobsAfter jobs changes) := by
  induction changes generalizing d jobs with
  | nil => exact holds
  | cons c changes ih => exact ih (holds.apply c)

theorem ofChanges (changes : List Change) : (ofChanges changes).Holds (jobsAfter [] changes) :=
  applyAll ⟨rfl, rfl⟩ changes

end Holds

/-- Steps leave the jobs of those before them where they are. -/
theorem prefix_jobsAfter (earlier : List Job) (changes : List Change) :
    earlier <+: jobsAfter earlier changes := by
  induction changes generalizing earlier with
  | nil => exact List.prefix_rfl
  | cons c changes ih => exact (List.prefix_append earlier _).trans (ih _)

theorem jobsAfter_append (earlier : List Job) (before after : List Change) :
    jobsAfter earlier (before ++ after) = jobsAfter (jobsAfter earlier before) after :=
  List.foldl_append

theorem settings_addJobs (d : Draft) (js : List Job) :
    (js.foldl addJob d).cpus = d.cpus ∧ (js.foldl addJob d).limit = d.limit := by
  induction js generalizing d with
  | nil => exact ⟨rfl, rfl⟩
  | cons j js ih => exact ih (d.addJob j)

theorem cpus_apply (d : Draft) (c : Change) : (d.apply c).cpus = c.cpus?.getD d.cpus := by
  cases c with
  | jobs js => exact (settings_addJobs d js).1
  | cpus _ | job _ | unnamed _ _ | limit _ => rfl

theorem limit_apply (d : Draft) (c : Change) : (d.apply c).limit = c.limit?.or d.limit := by
  cases c with
  | jobs js => exact (settings_addJobs d js).2
  | cpus _ | job _ | unnamed _ _ | limit _ => rfl

theorem lastSet_concat {α : Type} (set? : Change → Option α) (changes : List Change) (c : Change) :
    lastSet set? (changes ++ [c]) = (set? c).or (lastSet set? changes) := by
  rw [lastSet, List.reverse_append, List.reverse_singleton, List.singleton_append,
    List.findSome?_cons, lastSet]
  cases set? c <;> rfl

theorem settings_ofChanges (changes : List Change) :
    (ofChanges changes).cpus = (lastSet Change.cpus? changes).getD 1 ∧
      (ofChanges changes).limit = lastSet Change.limit? changes := by
  -- What the last step sets hides what the others set, so the last one is taken off.
  induction changes using List.reverseRecOn with
  | nil => exact ⟨rfl, rfl⟩
  | append_singleton changes c ih =>
    have step : ofChanges (changes ++ [c]) = (ofChanges changes).apply c := by
      rw [ofChanges, List.foldl_append]
      rfl
    rw [step, cpus_apply, limit_apply, lastSet_concat, lastSet_concat, ih.1, ih.2]
    refine ⟨?_, rfl⟩
    cases c.cpus? <;> rfl

/-- A construction gives a scenario with the jobs of all its steps in their order, unless the last
number of processors that was set is zero. Each unnamed job has the identifier that its place asks
for, which is new just when none before it is the greatest there is. -/
theorem unnamed_jobs_numbered :
    (∀ changes, (ofChanges changes).toScenario =
      if cpus_pos : 0 < (lastSet Change.cpus? changes).getD 1 then
        .ok { cpus := (lastSet Change.cpus? changes).getD 1, cpus_pos
              jobs := jobsAfter [] changes, limit := lastSet Change.limit? changes }
      else .error .noCpu) ∧
    ∀ before arrival burst after,
      let earlier := jobsAfter [] before
      earlier ++ [{ pid := pidAfter earlier, arrival, burst }] <+:
          jobsAfter [] (before ++ .unnamed arrival burst :: after) ∧
        ((∀ j ∈ earlier, j.pid ≠ pidAfter earlier) ↔ ∀ j ∈ earlier, j.pid ≠ maxInt32) := by
  constructor
  · intro changes
    obtain ⟨cpus, limit⟩ := settings_ofChanges changes
    have jobs := (Holds.ofChanges changes).jobs_eq
    simp only [toScenario, cpus, limit, jobs]
  · intro before arrival burst after earlier
    refine ⟨?_, pidAfter_fresh_iff earlier⟩
    rw [jobsAfter_append]
    exact prefix_jobsAfter _ after

example : (jobsAfter [] [.unnamed 0 3, .jobs [⟨10, 1, 2, 0⟩, ⟨-4, 1, 2, 0⟩], .unnamed 2 1]).map
    (·.pid) = [1, 10, -4, 11] := by decide

end CpuScheduling.Scenario.Draft
