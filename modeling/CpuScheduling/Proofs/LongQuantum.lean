import CpuScheduling.Proofs.Comparison
import CpuScheduling.Proofs.Least
import CpuScheduling.Proofs.Slices
/-!
Round robin with a long quantum. If no burst is longer than the quantum and the queue has a place
for every process, then nobody is ever taken off, and the queue holds the processes by arrival,
those of one tick in the order of the table. Its front is whom first come, first served picks, unless
a process has more priority than one before it that arrives in the same tick.
-/
namespace CpuScheduling.Machine
variable {x y m : Machine} {cpu slot quantum : Nat} {queue : ReadyQueue}

/-- Earlier arrival, or the same and the smaller slot. -/
def Ahead (jobs : List Job) (a b : Nat) : Prop :=
  ∀ i j, jobs[a]? = some i → jobs[b]? = some j →
    i.arrival < j.arrival ∨ i.arrival = j.arrival ∧ a < b

/-- Among jobs that arrive in one tick priorities do not increase along the table. -/
def Descending (jobs : List Job) : Prop :=
  jobs.Pairwise fun a b => a.arrival = b.arrival → b.priority ≤ a.priority

/-- Nobody precedes one that stands ahead of it, if priorities do not increase. -/
theorem precedes_of_ahead {jobs : List Job} (descending : Descending jobs) {p q : ProcessRecord}
    {a b : Nat} (found : jobs[a]? = some p.toJob) (found' : jobs[b]? = some q.toJob)
    (stands : p.arrival < q.arrival ∨ p.arrival = q.arrival ∧ a < b) :
    Selection.precedes (·.arrival) q p = false := by
  simp only [Selection.precedes, Selection.breaksTie, Bool.or_eq_false_iff, Bool.and_eq_false_iff,
    decide_eq_false_iff_not, beq_eq_false_iff_ne]
  rcases stands with later | ⟨together, lt⟩
  · omega
  · obtain ⟨inside, at_a⟩ := List.getElem?_eq_some_iff.1 found
    obtain ⟨inside', at_b⟩ := List.getElem?_eq_some_iff.1 found'
    have descends := List.pairwise_iff_getElem.1 descending a b inside inside' lt
    rw [at_a, at_b] at descends
    have priority : q.priority ≤ p.priority := descends together
    omega

/-! One tick of both. -/

/-- Amid the dispatches of a tick, one machine with a queue and one that scans by arrival: all that
has arrived is marked, who is marked is queued, and the queue stands in order. -/
structure Level (x y : Machine) : Prop extends Consistent x where
  alike : Alike x y
  fcfs : y.policy = .fcfs
  turns : x.policy.algorithm = .roundRobin
  descending : Descending x.jobs
  marked : ∀ p ∈ x.procs, p.arrival ≤ x.now → p.status ≠ .waiting
  waits : ∀ slot, x.status? slot = some .ready → slot ∈ x.queued
  ordered : x.queued.Pairwise (Ahead x.jobs)

namespace Level
variable (level : Level x y)
include level

theorem choice_eq : y.choose.1 = Selection.bestWaiting? (·.arrival) y.procs y.now := by
  simp [choose, level.fcfs, Policy.next]

/-- Who waits in one machine is queued in the other. -/
theorem queued_of_waiting {q : ProcessRecord} (mirrored : y.procs[slot]? = some q)
    (waiting : q.status = .waiting) (arrived : q.arrival ≤ y.now) :
    slot ∈ x.queued ∧ x.jobs[slot]? = some q.toJob := by
  rw [level.alike.getElem?_procs] at mirrored
  obtain ⟨p, found, rfl⟩ := Option.map_eq_some_iff.1 mirrored
  rw [p.toJob_unmarked, level.alike.now] at arrived
  have marked := level.marked p (List.mem_of_getElem? found) arrived
  have ready : p.status = .ready := by
    by_contra other
    rw [ProcessRecord.unmarked_of_ne other] at waiting
    exact marked waiting
  refine ⟨level.waits slot (status?_eq_some.2 ⟨p, found, ready⟩), ?_⟩
  rw [job_of_getElem? found, p.toJob_unmarked]

/-- Whoever waits in one machine stands behind the front of the queue of the other. -/
theorem behind_front (chosen : x.choose.1 = some slot) {p q : ProcessRecord} {other : Nat}
    (found : x.procs[slot]? = some p) (mirrored : y.procs[other]? = some q)
    (waiting : q.status = .waiting) (arrived : q.arrival ≤ y.now) (ne : other ≠ slot) :
    x.jobs[other]? = some q.toJob ∧
      (p.arrival < q.arrival ∨ p.arrival = q.arrival ∧ slot < other) := by
  obtain ⟨shape, -⟩ := queued_choose level.turns
  rw [chosen, Option.toList_some, List.singleton_append] at shape
  have ordered := level.ordered
  rw [shape, List.pairwise_cons] at ordered
  obtain ⟨waits, job⟩ := level.queued_of_waiting mirrored waiting arrived
  rw [shape, List.mem_cons] at waits
  exact ⟨job, ordered.1 other (waits.resolve_left ne) p.toJob q.toJob (job_of_getElem? found) job⟩

theorem choose_eq : y.choose.1 = x.choose.1 := by
  cases chosen : x.choose.1 with
  | none =>
    rw [level.choice_eq, Selection.bestWaiting?_eq_none_iff]
    intro q member waiting
    by_contra early
    obtain ⟨slot, found⟩ := List.mem_iff_getElem?.1 member
    have waits := (level.queued_of_waiting found waiting (Nat.le_of_not_lt early)).1
    rw [queued_eq_nil_of_choose chosen] at waits
    cases waits
  | some slot =>
    have front : slot ∈ x.queued := by
      rw [(queued_choose level.turns).1, chosen]
      exact List.mem_cons_self
    obtain ⟨p, found, ready⟩ := status?_eq_some.1 (level.queued_ready slot front)
    have arrived := level.arrived_of_ready found ready
    have found' : y.procs[slot]? = some p.unmarked := by
      rw [level.alike.getElem?_procs, found, Option.map_some]
    have job : x.jobs[slot]? = some p.unmarked.toJob := by
      rw [p.toJob_unmarked, job_of_getElem? found]
    have order := Selection.strictWeak_precedes (·.arrival)
    rw [level.choice_eq]
    refine order.bestIndex_eq_some_iff.2
      ⟨p.unmarked, found', ?_, fun j q mirrored fits => ?_, fun j q mirrored fits before => ?_⟩
    · simp [ProcessRecord.unmarked, ready, ProcessRecord.arrivedBy, level.alike.now, arrived]
    · simp only [ProcessRecord.arrivedBy, Bool.and_eq_true, decide_eq_true_eq] at fits
      by_cases same : j = slot
      · subst same
        obtain rfl := Option.some.inj (mirrored.symm.trans found')
        exact order.irrefl _
      · obtain ⟨job', stands⟩ := level.behind_front chosen found mirrored fits.1 fits.2 same
        refine precedes_of_ahead level.descending job job' ?_
        rwa [p.toJob_unmarked]
    · simp only [ProcessRecord.arrivedBy, Bool.and_eq_true, decide_eq_true_eq] at fits
      obtain ⟨-, later | ⟨-, lt⟩⟩ :=
        level.behind_front chosen found mirrored fits.1 fits.2 (Nat.ne_of_lt before)
      · simp [Selection.precedes, later]
      · exact absurd lt (Nat.lt_asymm before)

theorem dispatch (idle : x.isIdleAt cpu = true) (chosen : x.choose.1 = some slot) :
    Level (x.choose.2.dispatch cpu slot) (y.choose.2.dispatch cpu slot) := by
  obtain ⟨shape, turns⟩ := queued_choose level.turns
  rw [chosen, Option.toList_some, List.singleton_append] at shape
  have same : y.choose.2 = y :=
    choose_of_queue?_eq_none (by rw [level.fcfs]; rfl)
  obtain ⟨p, found, -⟩ := pending_of_choose level.toConsistent chosen
  have found' : x.choose.2.procs[slot]? = some p := found
  have moves := moves_assign level.toConsistent idle chosen
  have jobs := jobs_eq_of_accounts_eq moves.accounts_eq
  have taken : Alike x.choose.2 y :=
    ⟨level.alike.procs, level.alike.cpus, level.alike.timeline, level.alike.trace, level.alike.now,
      level.alike.completed⟩
  rw [same]
  refine ⟨level.moves moves, taken.dispatch cpu slot, ?_, ?_, jobs ▸ level.descending, ?_, ?_, ?_⟩
  · rw [policy_dispatch, level.fcfs]
  · rw [policy_dispatch, turns]
  · intro q member
    rw [now_dispatch]
    rw [dispatch_eq _ cpu slot found'] at member
    rcases List.mem_or_eq_of_mem_set member with old | rfl
    · exact level.marked q old
    · simp [ProcessRecord.dispatch]
  · intro s ready
    have other : s ≠ slot := by
      rintro rfl
      rw [status?_dispatch found', Function.update_self] at ready
      cases ready
    rw [status?_dispatch found', Function.update_of_ne other] at ready
    have waits := level.waits s ready
    rw [shape, List.mem_cons] at waits
    rw [queued_dispatch]
    exact waits.resolve_left other
  · have ordered := level.ordered
    rw [shape, List.pairwise_cons] at ordered
    rw [queued_dispatch, jobs]
    exact ordered.2

theorem occupyThese (cpus : List Nat) : Level (x.occupyThese cpus) (y.occupyThese cpus) := by
  refine occupyThese_induction
    (P := fun cpus x x' => ∀ y, Level x y → Level x' (y.occupyThese cpus)) ?_ ?_ ?_ ?_ cpus x y level
  · exact fun _ _ level => level
  · intro cpu rest x working ih y level
    rw [← level.alike.isIdleAt_eq] at working
    rw [occupyThese_cons_of_busy rest working]
    exact ih y level
  · intro cpu rest x idle no_choice y level
    rw [← level.alike.isIdleAt_eq] at idle
    have no_choice' := level.choose_eq.trans no_choice
    rw [occupyThese_cons_of_no_choice rest idle no_choice', choose_of_no_choice no_choice,
      choose_of_no_choice no_choice']
    exact level
  · intro cpu rest x slot idle chosen ih y level
    have idle' := idle
    rw [← level.alike.isIdleAt_eq] at idle'
    rw [occupyThese_cons_of_choice rest idle' (level.choose_eq.trans chosen)]
    exact ih _ (level.dispatch idle chosen)

end Level

/-! Whole ticks. -/

theorem Alike.foldl_sendToQueue (alike : Alike x y) (slots : List Nat) :
    Alike (slots.foldl sendToQueue x) y where
  procs := by rw [foldl_sendToQueue_keeps procs_sendToQueue, alike.procs]
  cpus := by rw [foldl_sendToQueue_keeps cpus_sendToQueue, alike.cpus]
  timeline := by rw [foldl_sendToQueue_keeps timeline_sendToQueue, alike.timeline]
  trace := by rw [foldl_sendToQueue_keeps trace_sendToQueue, alike.trace]
  now := by rw [foldl_sendToQueue_keeps now_sendToQueue, alike.now]
  completed := by rw [foldl_sendToQueue_keeps completed_sendToQueue, alike.completed]

/-- Nobody has used up a quantum that is as long as the longest burst. -/
theorem AtRest.rescheduled_of_long (rest : AtRest m) (balanced : m.Balanced)
    (sliced : ∀ p ∈ m.procs, p.Sliced) (policy : m.policy = .roundRobin quantum queue)
    (long : ∀ job ∈ m.jobs, job.burst ≤ quantum) : m.rescheduled = m.enqueued := by
  rw [rescheduled_eq_endSlices policy]
  refine endSlices_of_unused fun cpu => ?_
  cases ends : m.enqueued.expiringAt quantum cpu with
  | none => rfl
  | some slot =>
    obtain ⟨p, occupied, used⟩ := expiringAt_eq_some.1 ends
    obtain ⟨holds, found⟩ := occupant?_eq_some.1 occupied
    have running := rest.consistent_enqueued.running_of_held holds found
    have member := List.mem_of_getElem? found
    have whole : p.Sliced := rest.moves_enqueued.forall_procs
      ProcessRecord.lasting_sliced.toSteadfast
      (forall_procs_enrolled ProcessRecord.lasting_sliced.toSteadfast sliced) p member
    have same := rest.moves_enqueued.accounts_eq.trans m.accounts_enrolled
    have account : p.account ∈ m.accounts := same ▸ List.mem_map_of_mem member
    have some_left : 0 < p.remaining :=
      ((balanced _ account).unfinished (by simp [ProcessRecord.account,
        ProcessRecord.isCompleted, running])).1
    have in_jobs : p.toJob ∈ m.jobs := jobs_eq_of_accounts_eq same ▸ List.mem_map_of_mem member
    have short := long _ in_jobs
    unfold ProcessRecord.Sliced at whole
    omega

theorem ahead_of_arriving : m.arriving.Pairwise (Ahead m.jobs) := by
  have places : (m.procs.zipIdx.map (·.2)).Pairwise (· < ·) := by
    rw [List.zipIdx_map_snd]
    exact List.pairwise_lt_range'
  have ascending : m.arriving.Pairwise (· < ·) := places.sublist (List.filter_sublist.map _)
  refine ascending.imp_of_mem fun {a b} arrives arrives' lt i j found found' => ?_
  obtain ⟨p, at_a, now⟩ := mem_arriving.1 arrives
  obtain ⟨q, at_b, now'⟩ := mem_arriving.1 arrives'
  obtain rfl := Option.some.inj (found.symm.trans (job_of_getElem? at_a))
  obtain rfl := Option.some.inj (found'.symm.trans (job_of_getElem? at_b))
  exact .inr ⟨now.trans now'.symm, lt⟩

section Tick
variable {log : TurnLog} (rest : AtRest x) (l : Ledger log x)
  (policy : x.policy = .roundRobin quantum queue) (room : x.procs.length ≤ queue.capacity)
include rest l policy room

/-- The queue with the arrivals of the tick; who was queued before arrived before. -/
theorem Ledger.ordered_enqueued (ordered : x.queued.Pairwise (Ahead x.jobs)) :
    x.enqueued.queued = x.queued ++ x.arriving ∧ x.enqueued.queued.Pairwise (Ahead x.jobs) := by
  have taken : queue.refused x.arriving = [] := by
    have asking := l.length_asking_le rest policy
    rw [requests_eq, List.length_append] at asking
    exact ReadyQueue.refused_of_room (by omega)
  have before : x.queued = queue.slots := by rw [queued, policy]; rfl
  have all := queue.accepted_append_refused x.arriving
  rw [taken, List.append_nil] at all
  have shape : x.enqueued.queued = x.queued ++ x.arriving := by
    rw [(asked_enqueued policy).queued, all, before]
  refine ⟨shape, ?_⟩
  rw [shape, List.pairwise_append]
  refine ⟨ordered, ahead_of_arriving, fun a waits b arrives i j found found' => ?_⟩
  obtain ⟨p, at_a, ready⟩ := status?_eq_some.1 (rest.queued_ready a waits)
  obtain ⟨q, at_b, now⟩ := mem_arriving.1 arrives
  obtain rfl := Option.some.inj (found.symm.trans (job_of_getElem? at_a))
  obtain rfl := Option.some.inj (found'.symm.trans (job_of_getElem? at_b))
  left
  by_contra late
  have fresh := rest.untouched p (List.mem_of_getElem? at_a) (now ▸ Nat.le_of_not_lt late)
  rw [fresh] at ready
  cases ready

theorem Ledger.level (kept : log.refused = []) (ordered : x.queued.Pairwise (Ahead x.jobs))
    (descending : Descending x.jobs) (alike : Alike x y) (fcfs : y.policy = .fcfs) :
    Level x.enqueued y.enrolled := by
  obtain ⟨shape, ordered⟩ := l.ordered_enqueued rest policy room ordered
  have marks : x.policy.algorithm.marksReady = true := by rw [policy]; rfl
  have jobs : x.enqueued.jobs = x.jobs := jobs_eq_of_accounts_eq
    (rest.moves_enqueued.accounts_eq.trans x.accounts_enrolled)
  have procs : x.enqueued.procs = x.enrolled.procs := foldl_sendToQueue_keeps procs_sendToQueue ..
  have now : x.enqueued.now = x.now := foldl_sendToQueue_keeps now_sendToQueue ..
  have enrolled : Alike x.enrolled y.enrolled := alike.enrolled (by rw [fcfs]; rfl)
  refine ⟨rest.consistent_enqueued, enrolled.foldl_sendToQueue _, fcfs, ?_, jobs ▸ descending, ?_,
    fun slot ready => ?_, jobs ▸ ordered⟩
  · rw [(asked_enqueued policy).policy]
    rfl
  · rw [procs, now]
    refine rest.marked_enrolled marks fun p member early => ?_
    obtain ⟨slot, found⟩ := List.mem_iff_getElem?.1 member
    exact l.enrolled slot p found early
  · rw [x.status?_enqueued, rest.ready_enrolled_iff marks, l.ready_iff, kept] at ready
    rw [shape, List.mem_append]
    simpa using ready

end Tick

/-- Between two ticks. -/
structure Abiding (x y : Machine) : Prop where
  alike : Alike x y
  ordered : x.queued.Pairwise (Ahead x.jobs)

section Run
variable (rest : AtRest x) (resty : AtRest y) (l : Ledger {} x) (balanced : x.Balanced)
  (sliced : ∀ p ∈ x.procs, p.Sliced) (policy : x.policy = .roundRobin quantum queue)
  (fcfs : y.policy = .fcfs) (room : x.procs.length ≤ queue.capacity)
  (descending : Descending x.jobs) (long : ∀ job ∈ x.jobs, job.burst ≤ quantum)
include rest resty l balanced sliced policy fcfs room descending long

theorem Abiding.steps (abiding : Abiding x y) (n : Nat) : Abiding (x.steps n) (y.steps n) := by
  induction n with
  | zero => exact abiding
  | succ n ih =>
    obtain ⟨later, policy'⟩ := rest.policy_steps policy n
    have rest' := rest.steps n
    have jobs := rest.jobs_steps n
    have fcfs' : (y.steps n).policy = .fcfs :=
      (resty.policy_steps_eq (by rw [fcfs]; rfl) n).trans fcfs
    have room' : (x.steps n).procs.length ≤ later.capacity := by
      rw [rest.capacity_steps policy policy', rest.length_procs_steps]
      exact room
    have kept : ((TurnLog.append {} (x.turnLog n))).refused = [] :=
      l.refused_turnLog rest policy room n
    have level := (l.steps rest policy n).level rest' policy' room' kept ih.ordered
      (jobs ▸ descending) ih.alike fcfs'
    have unexpired := rest'.rescheduled_of_long (balanced.steps rest n)
      (rest.forall_procs_steps ProcessRecord.lasting_sliced sliced balanced n) policy'
      (jobs ▸ long)
    have at_row : Level (x.steps n).occupied (y.steps n).occupied := by
      have size : (x.steps n).enqueued.cpus.size = (y.steps n).enrolled.cpus.size := by
        rw [level.alike.cpus]
      have unmarked : (y.steps n).rescheduled = (y.steps n).enrolled :=
        rescheduled_of_unmarked (by rw [fcfs']; rfl)
      rw [occupied, occupied, unmarked, unexpired, occupyIdle, occupyIdle, size]
      exact level.occupyThese _
    rw [steps_succ, steps_succ]
    refine ⟨Alike.step at_row.alike, ?_⟩
    rw [queued_step, rest'.jobs_step, ← rest'.jobs_occupied]
    exact at_row.ordered

end Run

/-- If the quantum is as long as the longest burst, and the queue has a place for every process,
round robin and first come, first served run each process in the same ticks on the same processors,
and no quantum expires, provided that among processes of one arrival none later in the table has more
priority. -/
theorem long_quantum (s : Scenario) (bursts : ∀ job ∈ s.jobs, 0 < job.burst)
    (room : s.jobs.length ≤ defaultQueueCapacity) (descending : Descending s.jobs) {quantum : Nat}
    (long : ∀ job ∈ s.jobs, job.burst ≤ quantum) (quantum' : Nat) :
    (simulate ⟨.roundRobin, quantum⟩ s).Agrees (simulate ⟨.fcfs, quantum'⟩ s) ∧
      ∀ e ∈ (simulate ⟨.roundRobin, quantum⟩ s).machine.trace.toList, e.kind ≠ .expired := by
  let d : Discipline := ⟨.roundRobin, quantum⟩
  let d' : Discipline := ⟨.fcfs, quantum'⟩
  have jobs : (begun d s).jobs = s.jobs := jobs_begun d s
  have start : Abiding (begun d s) (begun d' s) := ⟨alike_begun d d' s, .nil⟩
  have agrees : (simulate d s).Agrees (simulate d' s) := simulate_agrees fun n =>
    (start.steps (atRest_begun d s) (atRest_begun d' s) (ledger_begun d s)
      (balanced_begun d s bursts) (sliced_boot s d.policy) rfl rfl
      ((ProcessTable.length_ofJobs s.jobs).trans_le room) (jobs ▸ descending) (jobs ▸ long) n).alike
  refine ⟨agrees, fun e member kind => ?_⟩
  have recorded : e ∈ (simulate d' s).machine.trace.toList := agrees.trace ▸ member
  rcases uninterrupted_simulate rfl s e recorded with other | other <;> simp [kind] at other

/-- One processor and three jobs; of the two that arrive together the first has more priority. -/
def fadingPriority : Scenario :=
  { cpus := 1, cpus_pos := Nat.one_pos, jobs := [⟨1, 0, 3, 2⟩, ⟨2, 0, 2, 1⟩, ⟨3, 1, 3, 5⟩] }

/-- A burst that is just as long as the quantum does not use it up. -/
theorem long_quantum_fading :
    let o := simulate ⟨.roundRobin, 3⟩ fadingPriority
    (∀ job ∈ fadingPriority.jobs, 0 < job.burst ∧ job.burst ≤ 3) ∧
      fadingPriority.jobs.length ≤ defaultQueueCapacity ∧ Descending fadingPriority.jobs ∧
      o.Agrees (simulate ⟨.fcfs, 2⟩ fadingPriority) ∧
      (∀ e ∈ o.machine.trace.toList, e.kind ≠ .expired) ∧
      o.machine.procs.map (·.finish) = [some 3, some 5, some 8] := by
  intro o
  have bursts : ∀ job ∈ fadingPriority.jobs, 0 < job.burst ∧ job.burst ≤ 3 := by decide
  have room : fadingPriority.jobs.length ≤ defaultQueueCapacity := by decide
  have descending : Descending fadingPriority.jobs := by unfold Descending; decide
  obtain ⟨agrees, unexpired⟩ := long_quantum fadingPriority (fun job member => (bursts job member).1)
    room descending (fun job member => (bursts job member).2) 2
  exact ⟨bursts, room, descending, agrees, unexpired, by decide +kernel⟩

/-- With the priorities the other way round the second of two arrivals goes first only if the table
is scanned. -/
example :
    let s : Scenario := { fadingPriority with jobs := [⟨1, 0, 3, 1⟩, ⟨2, 0, 2, 2⟩] }
    (simulate ⟨.roundRobin, 3⟩ s).machine.procs.map (·.start) = [some 0, some 3] ∧
      (simulate ⟨.fcfs, 3⟩ s).machine.procs.map (·.start) = [some 2, some 0] := by
  decide +kernel

end CpuScheduling.Machine
