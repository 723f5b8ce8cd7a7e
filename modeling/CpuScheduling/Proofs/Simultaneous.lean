import CpuScheduling.Proofs.Comparison
import CpuScheduling.Proofs.Eviction
/-!
Processes that arrive together. If all processes of a scenario arrive in one tick, nobody is ever
shorter than an occupant, so shortest remaining time first takes no processor away, and it gives the
idle ones to the same processes as shortest job first.
-/
namespace CpuScheduling.Machine
variable {x y m : Machine} {arrival cpu slot : Nat}

/-! Shortest job first runs a process to its end, so who waits has not run. -/

/-- Whoever waits has all of its work left. -/
def Unbroken (m : Machine) : Prop :=
  ∀ (slot : Nat) (p : ProcessRecord), m.procs[slot]? = some p → p.status = .waiting →
    p.remaining = p.burst

theorem AtRest.unbroken_step (rest : AtRest m)
    (unmarked : m.policy.algorithm.marksReady = false) (unbroken : m.Unbroken) :
    m.step.Unbroken := by
  intro slot q found waiting
  rw [rest.procs_step, List.getElem?_map] at found
  obtain ⟨p, at_row, rfl⟩ := Option.map_eq_some_iff.1 found
  have off : ∀ cpu, Status.waiting ≠ .running cpu := by simp
  have waits := (p.status_pass m.now off (by simp)).1 waiting
  have before := rest.status?_rescheduled (status?_eq_some.2 ⟨p, at_row, waits⟩) off
  rw [status?_rescheduled_of_unmarked unmarked] at before
  obtain ⟨r, at_rest, waited⟩ := status?_eq_some.1 before
  obtain ⟨r', same_place, same⟩ := exists_account_eq rest.accounts_occupied.symm at_rest
  obtain rfl : p = r' := Option.some.inj (at_row.symm.trans same_place)
  have idle : p.isRunning = false := by simp [ProcessRecord.isRunning, waits]
  have remaining : p.remaining = r.remaining := congrArg (·.remaining) same
  have burst : p.burst = r.burst := congrArg (·.job.burst) same
  have kept : (p.pass m.now).burst = p.burst := congrArg (·.burst) (p.toJob_pass m.now)
  rw [ProcessRecord.remaining_pass_of_off m.now idle, kept, remaining, burst]
  exact unbroken slot r at_rest waited

theorem AtRest.unbroken_steps (rest : AtRest m)
    (unmarked : m.policy.algorithm.marksReady = false) (unbroken : m.Unbroken) (n : Nat) :
    (m.steps n).Unbroken := by
  induction n with
  | zero => exact unbroken
  | succ n ih =>
    rw [steps_succ]
    exact (rest.steps n).unbroken_step (rest.algorithm_steps n ▸ unmarked) ih

theorem unbroken_begun (d : Discipline) (s : Scenario) : (begun d s).Unbroken := by
  intro slot p found _
  obtain ⟨job, -, rfl⟩ := List.mem_map.1 (List.mem_of_getElem? found)
  rfl

/-! One tick of both. -/

/-- Amid the dispatches of a tick, one machine with a policy that would evict and one with a policy
that does not: all that has arrived, at one tick, is marked by the first, nobody who is marked has
run, and no occupant has more work left than one of these. -/
structure Abreast (arrival : Nat) (x y : Machine) : Prop extends Consistent x where
  alike : Alike x y
  srtf : x.policy = .srtf
  sjf : y.policy = .sjf
  together : ∀ job ∈ x.jobs, job.arrival = arrival
  marked : ∀ p ∈ x.procs, p.arrival ≤ x.now → p.status ≠ .waiting
  whole : ∀ p ∈ x.procs, p.status = .ready → p.remaining = p.burst
  settled : ∀ cpu slot, x.held cpu = some slot → x.Leads slot

namespace Abreast
variable (abreast : Abreast arrival x y)
include abreast

theorem no_queue : x.policy.queue? = none := by
  rw [abreast.srtf]
  rfl

/-- The process that would preempt first is the one that the other policy picks: with one arrival
and nothing done yet, both compare the burst and then the priority. -/
theorem challenger?_eq : Selection.challenger? x.procs x.now = y.choose.1 := by
  have picks : y.choose.1 = Selection.bestWaiting? (·.burst) y.procs y.now := by
    simp [choose, abreast.sjf, Policy.next]
  rw [picks, abreast.alike.now, abreast.alike.procs]
  symm
  refine (Selection.strictWeak_precedes _).bestIndex_map Selection.strictWeak_isShorter _
    (fun p member => ?_) fun p member q member' fits fits' => ?_
  · have marked := abreast.marked p member
    by_cases ready : p.status = .ready
    · simp [ProcessRecord.unmarked, ready, ProcessRecord.arrivedBy]
    · simp only [ProcessRecord.unmarked_of_ne ready, ready, ProcessRecord.arrivedBy]
      simp only [decide_false, Bool.false_and, Bool.and_eq_false_iff, decide_eq_false_iff_not]
      tauto
  · simp only [Bool.and_eq_true, decide_eq_true_eq] at fits fits'
    have arrives : p.arrival = arrival := abreast.together _ (List.mem_map_of_mem member)
    have arrives' : q.arrival = arrival := abreast.together _ (List.mem_map_of_mem member')
    have work := abreast.whole p member fits.1
    have work' := abreast.whole q member' fits'.1
    simp [Selection.precedes, Selection.breaksTie, Selection.isShorter, work, work', arrives,
      arrives']

theorem preemption?_of_choice (idle : x.isIdleAt cpu = true)
    (lowest : ∀ c < cpu, x.isIdleAt c = false) (chosen : y.choose.1 = some slot) :
    ∃ p, x.preemption? = some (slot, p, cpu) := by
  have challenger := abreast.challenger?_eq.trans chosen
  obtain ⟨p, found, -⟩ := Selection.challenger?_eq_some challenger
  have inside := (isIdleAt_iff.1 idle).1
  have first : x.cpus.toList.findIdx? (·.isIdle) = some cpu := by
    refine List.findIdx?_eq_some_iff_getElem.2 ⟨by simpa using inside, ?_, fun c lt => ?_⟩
    · simpa [isIdleAt, inside] using idle
    · simpa [isIdleAt, lt.trans inside] using lowest c lt
  refine ⟨p, ?_⟩
  simp [preemption?, challenger, found, Selection.placeFor?, first]

theorem preemption?_of_no_choice (no_choice : y.choose.1 = none) : x.preemption? = none := by
  simp [preemption?, abreast.challenger?_eq, no_choice]

theorem preemption?_of_busy (busy : ∀ c, x.isIdleAt c = false) : x.preemption? = none := by
  cases preempts : x.preemption? with
  | none => rfl
  | some round =>
    obtain ⟨slot, p, cpu⟩ := round
    obtain ⟨-, -, -, inside, -⟩ := preemption?_eq_some preempts
    cases holds : x.held cpu with
    | none =>
      have idle := isIdleAt_iff.2 ⟨inside, holds⟩
      rw [busy cpu] at idle
      cases idle
    | some occupant =>
      have firm : x.Firm cpu := ⟨occupant, holds, abreast.settled cpu occupant holds⟩
      exact absurd rfl (ne_of_firm preempts firm)

/-- After preemptions nothing is left for the scan that fills idle processors. -/
theorem occupyThese_eq (cpus : List Nat) : x.occupyThese cpus = x := by
  have no_choice : x.choose.1 = none := by
    have picks : x.choose.1 = Selection.bestWaiting? (·.remaining) x.procs x.now := by
      simp [choose, abreast.srtf, Policy.next]
    rw [picks, Selection.bestWaiting?_eq_none_iff]
    exact fun p member waiting => Nat.lt_of_not_le fun arrived =>
      abreast.marked p member arrived waiting
  refine occupyThese_induction (P := fun _ x y => x.choose.1 = none →
    x.policy.queue? = none → y = x) ?_ ?_ ?_ ?_ cpus x no_choice abreast.no_queue
  · exact fun _ _ _ => rfl
  · exact fun _ _ _ _ ih => ih
  · exact fun _ _ z _ _ _ no_queue => choose_of_queue?_eq_none no_queue
  · intro cpu rest z slot _ chosen _ no_choice
    rw [chosen] at no_choice
    cases no_choice

theorem dispatch (idle : x.isIdleAt cpu = true) (chosen : y.choose.1 = some slot) :
    Abreast arrival (x.dispatch cpu slot) (y.dispatch cpu slot) := by
  have challenger := abreast.challenger?_eq.trans chosen
  obtain ⟨p, found, ready, arrived⟩ := Selection.challenger?_eq_some challenger
  obtain ⟨inside, free⟩ := isIdleAt_iff.1 idle
  have unqueued : slot ∉ x.queued := by simp [queued, abreast.no_queue]
  have move : Move x (x.dispatch cpu slot) := .place idle found (.inr ready) arrived unqueued
  have same : (x.dispatch cpu slot).left = x.left := left_eq_of_accounts_eq move.accounts_eq
  have seizes : Seizes x cpu slot p (x.dispatch cpu slot) := .idle free
  have members : ∀ q ∈ (x.dispatch cpu slot).procs, q ∈ x.procs ∨ q = p.dispatch cpu x.now := by
    rw [dispatch_eq x cpu slot found]
    exact fun q member => List.mem_or_eq_of_mem_set member
  refine ⟨abreast.move move, abreast.alike.dispatch cpu slot, ?_, ?_, ?_, ?_, ?_, ?_⟩
  · rw [policy_dispatch, abreast.srtf]
  · rw [policy_dispatch, abreast.sjf]
  · rw [jobs_eq_of_accounts_eq move.accounts_eq]
    exact abreast.together
  · intro q member
    rw [now_dispatch]
    rcases members q member with old | rfl
    · exact abreast.marked q old
    · simp [ProcessRecord.dispatch]
  · intro q member
    rcases members q member with old | rfl
    · exact abreast.whole q old
    · simp [ProcessRecord.dispatch]
  · intro c s holds
    rw [seizes.held found inside] at holds
    refine seizes.leads found same ?_
    by_cases here : c = cpu
    · subst here
      rw [Function.update_self] at holds
      obtain rfl := Option.some.inj holds
      intro s' ready'
      obtain ⟨q, found', ready'⟩ := status?_eq_some.1 ready'
      rw [left_of_getElem? found, left_of_getElem? found']
      exact Selection.remaining_le_of_challenger? challenger found (List.mem_of_getElem? found')
        ready' (abreast.arrived_of_ready found' ready')
    · rw [Function.update_of_ne here] at holds
      exact abreast.settled c s holds

/-- Preemptions take the idle processors in ascending order, as filling does, and evict nobody. -/
theorem preempt_occupyThese {cpus : List Nat} {n : Nat} (ascending : cpus.Pairwise (· < ·))
    (all : ∀ c, x.isIdleAt c = true → c ∈ cpus) (enough : x.readyCount ≤ n) :
    Abreast arrival (preemptAtMost n x) (y.occupyThese cpus) := by
  refine occupyThese_induction (P := fun cpus y y' => ∀ x n,
    Abreast arrival x y → cpus.Pairwise (· < ·) → (∀ c, x.isIdleAt c = true → c ∈ cpus) →
    x.readyCount ≤ n → Abreast arrival (preemptAtMost n x) y') ?_ ?_ ?_ ?_ cpus y x n abreast
    ascending all enough
  · intro y x n abreast _ all _
    have busy : ∀ c, x.isIdleAt c = false := fun c =>
      Bool.eq_false_iff.2 fun idle => absurd (all c idle) List.not_mem_nil
    rw [preemptAtMost_of_none_left (abreast.preemption?_of_busy busy)]
    exact abreast
  · intro cpu rest y working ih x n abreast ascending all enough
    rw [abreast.alike.isIdleAt_eq] at working
    refine ih x n abreast (List.pairwise_cons.1 ascending).2 (fun c idle => ?_) enough
    refine (List.mem_cons.1 (all c idle)).resolve_left ?_
    rintro rfl
    rw [working] at idle
    cases idle
  · intro cpu rest y _ no_choice x n abreast _ _ _
    have no_queue : y.policy.queue? = none := by rw [abreast.sjf]; rfl
    rw [preemptAtMost_of_none_left (abreast.preemption?_of_no_choice no_choice),
      choose_of_queue?_eq_none no_queue]
    exact abreast
  · intro cpu rest y slot idle chosen ih x n abreast ascending all enough
    have no_queue : y.policy.queue? = none := by rw [abreast.sjf]; rfl
    rw [choose_of_queue?_eq_none no_queue] at ih ⊢
    rw [abreast.alike.isIdleAt_eq] at idle
    obtain ⟨after, ascending⟩ := List.pairwise_cons.1 ascending
    have lowest : ∀ c < cpu, x.isIdleAt c = false := by
      refine fun c lt => Bool.eq_false_iff.2 fun idle => ?_
      rcases List.mem_cons.1 (all c idle) with rfl | member
      · exact Nat.lt_irrefl _ lt
      · exact Nat.lt_asymm lt (after c member)
    obtain ⟨p, preempts⟩ := abreast.preemption?_of_choice idle lowest chosen
    have found := (preemption?_eq_some preempts).1
    have free : x.evict cpu p.pid = x := evict_of_idle _ (isIdleAt_iff.1 idle).2
    have fewer := readyCount_preempted abreast.matching preempts
    rw [free] at fewer
    obtain ⟨n, rfl⟩ : ∃ k, n = k + 1 := ⟨n - 1, by omega⟩
    rw [preemptAtMost, preempts]
    dsimp only
    rw [free]
    refine ih _ n (abreast.dispatch idle chosen) ascending (fun c idle' => ?_) (by omega)
    obtain ⟨other, idle'⟩ := idle_of_dispatch found idle idle'
    exact (List.mem_cons.1 (all c idle')).resolve_left other

end Abreast

/-! Whole ticks. -/

/-- Between two ticks: nobody could evict an occupant, and who has arrived is marked. -/
structure Paired (x y : Machine) : Prop where
  alike : Alike x y
  converged : Converged x
  marked : ∀ p ∈ x.procs, p.arrival < x.now → p.status ≠ .waiting

section Tick
variable (paired : Paired x y) (restx : AtRest x) (srtf : x.policy = .srtf)
  (sjf : y.policy = .sjf) (unbroken : y.Unbroken) (together : ∀ job ∈ x.jobs, job.arrival = arrival)
include paired restx srtf sjf unbroken together

theorem Paired.abreast : Abreast arrival x.enrolled y.enrolled := by
  have marks : x.policy.algorithm.marksReady = true := by rw [srtf]; rfl
  have unmarks : y.policy.algorithm.marksReady = false := by rw [sjf]; rfl
  have alike : Alike x.enrolled y.enrolled := paired.alike.enrolled unmarks
  have jobs : x.enrolled.jobs = x.jobs := jobs_eq_of_accounts_eq x.accounts_enrolled
  refine ⟨restx.enrolled, alike, srtf, sjf, jobs ▸ together,
    restx.marked_enrolled marks paired.marked, fun q member ready => ?_, fun cpu slot holds s ready => ?_⟩
  · -- the other machine has the same process waiting
    obtain ⟨slot, found⟩ := List.mem_iff_getElem?.1 member
    have found' : y.procs[slot]? = some q.unmarked := by
      have same : y.enrolled.procs = y.procs := by
        simp [procs_enrolled, ProcessRecord.enroll, unmarks]
      rw [← same, alike.getElem?_procs, found, Option.map_some]
    have whole := unbroken slot q.unmarked found' (by simp [ProcessRecord.unmarked, ready])
    simpa using whole
  · -- somebody runs, so all have arrived before, and nobody is marked in this tick
    obtain ⟨v, at_slot, running⟩ := restx.slot_lt_of_held holds
    have early : v.arrival < x.now := by
      by_contra late
      have fresh := restx.untouched v (List.mem_of_getElem? at_slot) (Nat.le_of_not_lt late)
      rw [fresh] at running
      cases running
    have same : x.enrolled.left = x.left := left_eq_of_accounts_eq x.accounts_enrolled
    rw [same]
    refine paired.converged.settled cpu slot holds s ?_
    rcases (restx.ready_enrolled_iff marks s).1 ready with before | arrives
    · exact before
    · obtain ⟨q, found, at_once⟩ := mem_arriving.1 arrives
      have arrival_q := together _ (List.mem_map_of_mem (List.mem_of_getElem? found))
      have arrival_v := together _ (List.mem_map_of_mem (List.mem_of_getElem? at_slot))
      omega

theorem Paired.abreast_occupied : Abreast arrival x.occupied y.occupied := by
  have start := paired.abreast restx srtf sjf unbroken together
  have unmarks : y.policy.algorithm.marksReady = false := by rw [sjf]; rfl
  have preempted : Abreast arrival x.enrolled.preempt y.enrolled.occupyIdle := by
    refine start.preempt_occupyThese List.pairwise_lt_range (fun c idle => ?_) (Nat.le_refl _)
    rw [← start.alike.isIdleAt_eq] at idle
    exact List.mem_range.2 (isIdleAt_iff.1 idle).1
  rw [occupied, occupied, rescheduled_of_srtf srtf, rescheduled_of_unmarked unmarks, occupyIdle,
    preempted.occupyThese_eq]
  exact preempted

theorem Paired.step : Paired x.step y.step := by
  have at_row := paired.abreast_occupied restx srtf sjf unbroken together
  refine ⟨Alike.step at_row.alike, paired.converged.step restx srtf, fun q member early => ?_⟩
  rw [restx.procs_step] at member
  obtain ⟨p, before, rfl⟩ := List.mem_map.1 member
  have same : (p.pass x.now).arrival = p.arrival := congrArg (·.arrival) (p.toJob_pass x.now)
  rw [same, restx.now_step] at early
  have off : ∀ cpu, Status.waiting ≠ .running cpu := by simp
  intro waiting
  refine at_row.marked p before ?_ ((p.status_pass x.now off (by simp)).1 waiting)
  rw [restx.now_occupied]
  exact Nat.le_of_lt_succ early

end Tick

theorem Paired.steps (paired : Paired x y) (restx : AtRest x) (resty : AtRest y)
    (srtf : x.policy = .srtf) (sjf : y.policy = .sjf) (unbroken : y.Unbroken)
    (together : ∀ job ∈ x.jobs, job.arrival = arrival) (n : Nat) :
    Paired (x.steps n) (y.steps n) := by
  have unmarks : y.policy.algorithm.marksReady = false := by rw [sjf]; rfl
  induction n with
  | zero => exact paired
  | succ n ih =>
    rw [steps_succ, steps_succ]
    refine ih.step (restx.steps n) (restx.srtf_steps srtf n) ?_
      (resty.unbroken_steps unmarks unbroken n) (restx.jobs_steps n ▸ together)
    exact (resty.policy_steps_eq (by rw [sjf]; rfl) n).trans sjf

/-- When all processes arrive in one tick, shortest remaining time first and shortest job first run
each of them in the same ticks on the same processors, and nobody is evicted. -/
theorem simultaneous_arrivals (s : Scenario) {arrival : Nat}
    (together : ∀ job ∈ s.jobs, job.arrival = arrival) (quantum quantum' : Nat) :
    (simulate ⟨.srtf, quantum⟩ s).Agrees (simulate ⟨.sjf, quantum'⟩ s) ∧
      ∀ e ∈ (simulate ⟨.srtf, quantum⟩ s).machine.trace.toList, e.kind ≠ .preempted := by
  let d : Discipline := ⟨.srtf, quantum⟩
  let d' : Discipline := ⟨.sjf, quantum'⟩
  have paired : Paired (begun d s) (begun d' s) :=
    ⟨alike_begun d d' s, (converged_boot s .srtf).say _,
      fun p _ early => absurd early (Nat.not_lt_zero _)⟩
  have agrees : (simulate d s).Agrees (simulate d' s) := simulate_agrees fun n =>
    (paired.steps (atRest_begun d s) (atRest_begun d' s) rfl rfl (unbroken_begun d' s)
      ((jobs_begun d s).symm ▸ together) n).alike
  refine ⟨agrees, fun e member kind => ?_⟩
  have recorded : e ∈ (simulate d' s).machine.trace.toList := agrees.trace ▸ member
  rcases uninterrupted_simulate rfl s e recorded with other | other <;> simp [kind] at other

/-- Two processors and three jobs that arrive together; of the two longest the last goes first. -/
def jointArrival : Scenario :=
  { cpus := 2, cpus_pos := Nat.two_pos, jobs := [⟨1, 1, 3, 0⟩, ⟨2, 1, 1, 0⟩, ⟨3, 1, 3, 1⟩] }

theorem simultaneous_arrivals_joint :
    let o := simulate ⟨.srtf, 2⟩ jointArrival
    (∀ job ∈ jointArrival.jobs, job.arrival = 1) ∧ o.Agrees (simulate ⟨.sjf, 2⟩ jointArrival) ∧
      (∀ e ∈ o.machine.trace.toList, e.kind ≠ .preempted) ∧
      o.machine.procs.map (·.start) = [some 2, some 1, some 1] := by
  intro o
  have together : ∀ job ∈ jointArrival.jobs, job.arrival = 1 := by decide
  obtain ⟨agrees, calm⟩ := simultaneous_arrivals jointArrival together 2 2
  exact ⟨together, agrees, calm, by decide +kernel⟩

end CpuScheduling.Machine
