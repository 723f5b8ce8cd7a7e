import CpuScheduling.Proofs.Execution
/-!
Overflow. What the full queue of round robin refuses is all that a run leaves unfinished that may
take as long as the last arrival and all work together.
-/
namespace CpuScheduling.Machine

/-- Some different places of a list, which are those of the elements that fit, count these. -/
theorem countP_eq_length_of_places {α : Type} (fits : α → Bool) (l : List α) {places : List Nat}
    (nodup : places.Nodup) (inside : ∀ i ∈ places, i < l.length)
    (fitting : ∀ i a, l[i]? = some a → (fits a = true ↔ i ∈ places)) :
    l.countP fits = places.length := by
  have same : ((List.range l.length).filter fun i => l[i]?.any fits).Perm places := by
    refine (List.perm_ext_iff_of_nodup (List.nodup_range.filter _) nodup).2 fun i => ?_
    rw [List.mem_filter, List.mem_range]
    constructor
    · rintro ⟨_, fit⟩
      obtain ⟨a, found, fit⟩ := (Option.any_eq_true ..).1 fit
      exact (fitting i a found).1 fit
    · intro member
      have found := List.getElem?_eq_getElem (inside i member)
      refine ⟨inside i member, ?_⟩
      rw [found]
      exact (fitting i _ found).2 member
  rw [← same.length_eq, ← List.countP_eq_length_filter, countP_range_getElem?]

variable {m : Machine} {slot n : Nat} {p : ProcessRecord}

theorem mem_refused_of_le {i : Nat} (upto : i ≤ n) (lost : slot ∈ (m.turnLog i).refused) :
    slot ∈ (m.turnLog n).refused := by
  induction upto with
  | refl => exact lost
  | step _ ih => exact List.mem_append_left _ ih

theorem Ledger.lt_of_refused {log : TurnLog} (l : Ledger log m) (lost : slot ∈ log.refused) :
    slot < m.procs.length := lt_of_status? ((l.ready_iff slot).2 (.inr lost))

/-- Whom the queue has never refused has finished when the run has taken as long as its arrival and
all work together. -/
theorem AtRest.completed_of_kept (h : AtRest m) (balanced : m.Balanced) (l : Ledger {} m)
    (cpus : 0 < m.cpus.size) (start : m.now = 0) (kept : slot ∉ (m.turnLog n).refused)
    (found : (m.steps n).procs[slot]? = some p) (long : p.arrival + m.workLeft ≤ n) :
    p.status = .completed := by
  have diligent : ∀ i < n, ∃ lost, slot ∉ lost ∧ (m.steps i).DiligentBut lost :=
    fun i early => ⟨_, fun lost => kept (mem_refused_of_le early lost), h.diligentBut_steps l i⟩
  by_contra going
  have unfinished : p.isCompleted = false := decide_eq_false going
  exact Nat.not_lt_of_le long (h.unfinished_lt balanced cpus start diligent found unfinished)

/-- What the queue refuses stays ready. -/
theorem Ledger.uncompleted_of_refused {log : TurnLog} (l : Ledger log m)
    (lost : slot ∈ log.refused) (found : m.procs[slot]? = some p) : p.status ≠ .completed := by
  intro done
  have ready := (l.ready_iff slot).2 (.inr lost)
  rw [status?_of_getElem? found, done] at ready
  cases ready

/-- More arrivals at once than the queue has places left: some are refused. -/
theorem AtRest.dropped_lt_step (h : AtRest m) {quantum : Nat} {queue : ReadyQueue}
    (policy : m.policy = .roundRobin quantum queue)
    (crowded : queue.capacity < queue.length + m.arriving.length) : m.dropped < m.step.dropped := by
  have asking : m.arriving.length ≤ (m.requests quantum).length := by
    rw [requests_eq, List.length_append]
    exact Nat.le_add_right _ _
  have inside : queue.length ≤ queue.capacity := queue.length_le
  rw [h.dropped_step_eq policy, ← ReadyQueue.fst_enqueueAll]
  simp only [ReadyQueue.enqueueAll]
  omega

theorem ending_eq_cutOff_iff {limit : Nat} :
    m.ending limit = .cutOff limit ↔ m.allFinished = false := by
  unfold ending
  split
  next done => exact iff_of_false nofun (Bool.not_eq_false _ ▸ done)
  next going => exact iff_of_true rfl (Bool.eq_false_iff.2 going)

/-! Simulations. -/
section Begun
variable (s : Scenario) (quantum : Nat)

theorem ledger_begun_steps (n : Nat) :
    Ledger ((begun ⟨.roundRobin, quantum⟩ s).turnLog n)
      ((begun ⟨.roundRobin, quantum⟩ s).steps n) :=
  (ledger_begun _ s).steps (atRest_begun _ s) rfl n

theorem dropped_begun (room : s.jobs.length ≤ defaultQueueCapacity) (n : Nat) :
    ((begun ⟨.roundRobin, quantum⟩ s).steps n).dropped = 0 := by
  rw [(ledger_begun_steps s quantum n).dropped_eq, refused_begun _ s room]
  rfl

section Stopped
variable (bursts : ∀ job ∈ s.jobs, 0 < job.burst) (long : s.span ≤ s.bound) {k : Nat}
  (stop : k = s.bound ∨ ((begun ⟨.roundRobin, quantum⟩ s).steps k).allFinished = true)
include bursts long stop

theorem uncompleted_iff_refused
    (found : ((begun ⟨.roundRobin, quantum⟩ s).steps k).procs[slot]? = some p) :
    p.status ≠ .completed ↔ slot ∈ ((begun ⟨.roundRobin, quantum⟩ s).turnLog k).refused := by
  have rest := atRest_begun ⟨.roundRobin, quantum⟩ s
  have member := List.mem_of_getElem? found
  refine ⟨fun going => ?_,
    fun lost => (ledger_begun_steps s quantum k).uncompleted_of_refused lost found⟩
  by_contra kept
  rcases stop with reached | done
  · have arrival : p.arrival ≤ Scenario.lastArrival s.jobs :=
      Scenario.arrival_le_lastArrival (jobs_begun _ s ▸ rest.toJob_mem_jobs member)
    refine going (rest.completed_of_kept (balanced_begun _ s bursts) (ledger_begun _ s)
      (size_cpus_begun _ s ▸ s.cpus_pos) rfl kept found ?_)
    rw [reached, workLeft_begun]
    exact (Nat.add_le_add_right arrival _).trans long
  · exact going ((rest.steps k).allFinished_iff.1 done p member)

theorem countP_uncompleted :
    ((begun ⟨.roundRobin, quantum⟩ s).steps k).procs.countP (!·.isCompleted) =
      ((begun ⟨.roundRobin, quantum⟩ s).steps k).dropped := by
  have l := ledger_begun_steps s quantum k
  rw [l.dropped_eq]
  refine countP_eq_length_of_places _ _ l.refused_nodup (fun slot => l.lt_of_refused) ?_
  intro slot p found
  rw [← uncompleted_iff_refused s quantum bursts long stop found]
  simp [ProcessRecord.isCompleted]

theorem cutOff_iff_dropped :
    ((begun ⟨.roundRobin, quantum⟩ s).steps k).ending s.bound = .cutOff s.bound ↔
      0 < ((begun ⟨.roundRobin, quantum⟩ s).steps k).dropped := by
  have finished_iff := ((atRest_begun ⟨.roundRobin, quantum⟩ s).steps k).allFinished_iff
  rw [ending_eq_cutOff_iff, ← countP_uncompleted s quantum bursts long stop, List.countP_pos_iff,
    ← Bool.not_eq_true, finished_iff]
  simp [ProcessRecord.isCompleted]

end Stopped
end Begun

/-- A simulation of round robin that may take as long as the last arrival and all work together
leaves unfinished exactly whom the queue has refused, as many as are counted, and is cut off just if
there is any; with no more processes than places in the queue there is none. -/
theorem overflow_accounting (s : Scenario) (bursts : ∀ job ∈ s.jobs, 0 < job.burst)
    (quantum : Nat) :
    let start := begun ⟨.roundRobin, quantum⟩ s
    let o := simulate ⟨.roundRobin, quantum⟩ s
    (s.span ≤ s.bound →
      (∀ slot p, o.machine.procs[slot]? = some p →
        (p.status ≠ .completed ↔ slot ∈ (start.turnLog o.totalTicks).refused)) ∧
      o.machine.procs.countP (!·.isCompleted) = o.machine.dropped ∧
      (o.ending = .cutOff s.bound ↔ 0 < o.machine.dropped)) ∧
    (s.jobs.length ≤ defaultQueueCapacity →
      o.machine.dropped = 0 ∧ ∀ n, (start.steps n).dropped = 0) := by
  intro start
  obtain ⟨k, -, outcome, -, stop⟩ := simulate_eq ⟨.roundRobin, quantum⟩ s
  rw [outcome]
  intro o
  have ticks : o.totalTicks = k := ((atRest_begun _ s).now_steps k).trans (Nat.zero_add k)
  rw [ticks]
  exact ⟨fun long => ⟨fun slot p => uncompleted_iff_refused s quantum bursts long stop,
      countP_uncompleted s quantum bursts long stop, cutOff_iff_dropped s quantum bursts long stop⟩,
    fun room => ⟨dropped_begun s quantum room k, dropped_begun s quantum room⟩⟩

/-- One process more than the queue has places, all at once on one processor. -/
def oneTooMany : Scenario where
  cpus := 1
  cpus_pos := Nat.one_pos
  jobs := List.replicate (defaultQueueCapacity + 1) ⟨1, 0, 1, 0⟩
  limit := some (defaultQueueCapacity + 1)

/-- Of so many processes one is refused before the first gets the processor. -/
theorem overflow_accounting_crowded :
    let o := simulate ⟨.roundRobin, 1⟩ oneTooMany
    (∀ job ∈ oneTooMany.jobs, 0 < job.burst) ∧ oneTooMany.span ≤ oneTooMany.bound ∧
      0 < o.machine.dropped ∧ o.machine.procs.countP (!·.isCompleted) = o.machine.dropped ∧
      o.ending = .cutOff 501 := by
  intro o
  have bursts : ∀ job ∈ oneTooMany.jobs, 0 < job.burst := by
    intro job member
    rw [List.eq_of_mem_replicate member]
    exact Nat.one_pos
  have long : oneTooMany.span ≤ oneTooMany.bound := by decide +kernel
  obtain ⟨-, counted, cut⟩ := (overflow_accounting oneTooMany bursts 1).1 long
  have dropped : 0 < o.machine.dropped := by
    obtain ⟨k, -, outcome, -, stop⟩ := simulate_eq ⟨.roundRobin, 1⟩ oneTooMany
    have rest := atRest_begun ⟨.roundRobin, 1⟩ oneTooMany
    have crowded : (begun ⟨.roundRobin, 1⟩ oneTooMany).arriving.length = 501 := by decide +kernel
    have first := rest.dropped_lt_step rfl (crowded.symm ▸ Nat.lt_succ_self 500)
    cases k with
    | zero =>
      rcases stop with reached | done
      · cases reached
      · have unfinished : (begun ⟨.roundRobin, 1⟩ oneTooMany).allFinished = false := by
          decide +kernel
        cases unfinished.symm.trans done
    | succ k =>
      have grows := rest.dropped_steps_le rfl 1 k
      show 0 < (simulate ⟨.roundRobin, 1⟩ oneTooMany).machine.dropped
      rw [outcome, Nat.add_comm k 1]
      exact Nat.lt_of_lt_of_le (Nat.zero_lt_of_lt first) grows
  exact ⟨bursts, long, dropped, counted, cut.2 dropped⟩

end CpuScheduling.Machine
