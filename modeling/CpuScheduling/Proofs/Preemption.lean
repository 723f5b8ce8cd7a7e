import CpuScheduling.Proofs.Seizure
/-!
Preemption to the end. Whoever is ready takes over processors, one round after another, until no
round is possible: each round uses up a ready process, whom it evicts had more work left and was not
put there by another round, and in the end no ready process is shorter than an occupant. Processes
that wait get a processor only when nobody is ready any more.
-/
namespace CpuScheduling

/-- One round of preemption: the process of a slot takes over a processor, from a victim if the
processor holds one. -/
structure Takeover where
  cpu : Nat
  slot : Nat
  victim? : Option Nat

/-- A process takes part in a takeover. -/
def Takeover.Concerns (t : Takeover) (slot : Nat) : Prop := t.slot = slot ∨ t.victim? = some slot

namespace Machine
variable {m x y : Machine} {cpu slot : Nat} {p : ProcessRecord} {takeovers : List Takeover}

/-- Rounds of preemption, the last of which leaves none that is possible. -/
inductive Takeovers : Machine → List Takeover → Machine → Prop
  | ended {m : Machine} (none_left : m.preemption? = none) : Takeovers m [] m
  | next {m m' : Machine} {cpu slot : Nat} {p : ProcessRecord} {takeovers : List Takeover}
      (preempts : m.preemption? = some (slot, p, cpu))
      (others : Takeovers ((m.evict cpu p.pid).dispatch cpu slot) takeovers m') :
      Takeovers m (⟨cpu, slot, m.held cpu⟩ :: takeovers) m'

/-- A takeover as the machines before and after all rounds show it. The process that takes over was
ready. The one that it evicts ran before the first round and had more work left, and it waits after
the last. -/
def Exchanges (x y : Machine) (t : Takeover) : Prop :=
  ∃ p, x.procs[t.slot]? = some p ∧ p.status = .ready ∧ p.arrival ≤ x.now ∧
    y.procs[t.slot]? = some (p.dispatch t.cpu x.now) ∧
    ∀ victim ∈ t.victim?, ∃ v, x.procs[victim]? = some v ∧ v.status = .running t.cpu ∧
      p.remaining < v.remaining ∧ y.procs[victim]? = some { v with status := .waiting }

/-! One round. -/
namespace Seizes
variable (seizes : Seizes x cpu slot p y)
include seizes

theorem now_eq : y.now = x.now := by
  cases seizes with
  | idle free => exact now_dispatch ..
  | busy full holds at_slot running longer other notice => exact now_dispatch ..

theorem getElem?_procs_self (found : x.procs[slot]? = some p) :
    y.procs[slot]? = some (p.dispatch cpu x.now) := by
  cases seizes with
  | idle free => exact getElem?_procs_dispatch found
  | busy full holds at_slot running longer other notice =>
    exact getElem?_procs_dispatch ((List.getElem?_set_ne other).trans found)

theorem getElem?_procs_of_ne {s : Nat} (apart : s ≠ slot) (unheld : x.held cpu ≠ some s) :
    y.procs[s]? = x.procs[s]? := by
  cases seizes with
  | idle free => exact getElem?_procs_dispatch_of_ne x cpu slot apart
  | @busy victim v full holds at_slot running longer other notice =>
    have spared : victim ≠ s := by
      rintro rfl
      exact unheld holds
    rw [getElem?_procs_dispatch_of_ne _ cpu slot apart]
    exact List.getElem?_set_ne spared

theorem getElem?_procs_victim {victim : Nat} (holds : x.held cpu = some victim) :
    ∃ v, x.procs[victim]? = some v ∧ v.status = .running cpu ∧ p.remaining < v.remaining ∧
      y.procs[victim]? = some { v with status := .waiting } := by
  cases seizes with
  | idle free =>
    rw [free] at holds
    cases holds
  | @busy victim' v full holds' at_slot running longer other notice =>
    obtain rfl : victim' = victim := Option.some.inj (holds'.symm.trans holds)
    refine ⟨v, at_slot, running, longer, ?_⟩
    rw [getElem?_procs_dispatch_of_ne _ cpu slot other]
    exact List.getElem?_set_self (List.getElem?_eq_some_iff.1 at_slot).1

end Seizes

section Round
variable {z : Machine} {t : Takeover} (preempts : x.preemption? = some (slot, p, cpu))
  (seizes : Seizes x cpu slot p y)
include preempts seizes

/-- Who is ready after a round was so before. -/
theorem Seizes.getElem?_procs_of_ready {s : Nat} {q : ProcessRecord} (found' : y.procs[s]? = some q)
    (ready : q.status = .ready) : x.procs[s]? = some q := by
  obtain ⟨found, -⟩ := preemption?_eq_some preempts
  have apart : s ≠ slot := by
    rintro rfl
    cases found'.symm.trans (seizes.getElem?_procs_self found)
    cases ready
  have unheld : x.held cpu ≠ some s := by
    intro holds
    obtain ⟨v, -, -, -, evicted⟩ := seizes.getElem?_procs_victim holds
    cases found'.symm.trans evicted
    cases ready
  rw [← seizes.getElem?_procs_of_ne apart unheld, found']

/-- Who runs after a round with more work left than somebody who is ready ran before. -/
theorem Seizes.getElem?_procs_of_longer {s c : Nat} {v r : ProcessRecord}
    (found' : y.procs[s]? = some v) (running : v.status = .running c) (member : r ∈ x.procs)
    (arrived : r.arrival ≤ x.now) (ready : r.status = .ready) (longer : r.remaining < v.remaining) :
    x.procs[s]? = some v := by
  obtain ⟨found, -⟩ := preemption?_eq_some preempts
  have apart : s ≠ slot := by
    rintro rfl
    cases found'.symm.trans (seizes.getElem?_procs_self found)
    have least : p.remaining ≤ r.remaining := Selection.remaining_le_of_challenger?
      (challenger?_of_preemption? preempts).1 found member ready arrived
    exact absurd longer (Nat.not_lt_of_le least)
  have unheld : x.held cpu ≠ some s := by
    intro holds
    obtain ⟨v', -, -, -, evicted⟩ := seizes.getElem?_procs_victim holds
    cases found'.symm.trans evicted
    cases running
  rw [← seizes.getElem?_procs_of_ne apart unheld, found']

/-- Whom a takeover concerns after a round, it concerns as seen from before the round. -/
theorem Exchanges.of_round (e : Exchanges y z t) : Exchanges x z t := by
  obtain ⟨q, found', ready, arrived, final, evicts⟩ := e
  rw [seizes.now_eq] at arrived final
  have before := seizes.getElem?_procs_of_ready preempts found' ready
  refine ⟨q, before, ready, arrived, final, fun victim member => ?_⟩
  obtain ⟨v, at_slot, running, longer, waits⟩ := evicts victim member
  exact ⟨v, seizes.getElem?_procs_of_longer preempts at_slot running
    (List.mem_of_getElem? before) arrived ready longer, running, longer, waits⟩

/-- Who takes over a processor in a round is concerned by no later takeover. -/
theorem Exchanges.spares_slot (e : Exchanges y z t) : ¬ t.Concerns slot := by
  obtain ⟨found, ready, -⟩ := preemption?_eq_some preempts
  rintro (same | same)
  · obtain ⟨q, found', ready', -⟩ := e
    rw [same, seizes.getElem?_procs_self found] at found'
    cases found'
    cases ready'
  · obtain ⟨q, -, -, -, -, evicts⟩ := e.of_round preempts seizes
    obtain ⟨v, at_slot, running, -⟩ := evicts slot same
    cases found.symm.trans at_slot
    rw [ready] at running
    cases running

end Round

/-! All rounds. -/

/-- Who waits is concerned by no takeover. -/
theorem Exchanges.spares {t : Takeover} (e : Exchanges x y t) {s : Nat} {v : ProcessRecord}
    (found : x.procs[s]? = some v) (waiting : v.status = .waiting) : ¬ t.Concerns s := by
  obtain ⟨q, at_slot, ready, -, -, evicts⟩ := e
  rintro (rfl | same)
  · cases found.symm.trans at_slot
    rw [ready] at waiting
    cases waiting
  · obtain ⟨v', at_victim, running, -⟩ := evicts s same
    cases found.symm.trans at_victim
    rw [running] at waiting
    cases waiting

/-- Preemptions end, with no more rounds than processes are ready. -/
theorem takeovers_preemptAtMost (h : Matching m.held m.status?) {n : Nat}
    (enough : m.readyCount ≤ n) :
    ∃ takeovers, Takeovers m takeovers (preemptAtMost n m) ∧ takeovers.length ≤ m.readyCount := by
  induction n generalizing m with
  | zero =>
    have none_left : m.preemption? = none := preemption?_preemptAtMost h enough
    exact ⟨[], .ended none_left, Nat.zero_le _⟩
  | succ n ih =>
    unfold preemptAtMost
    cases preempts : m.preemption? with
    | none => exact ⟨[], .ended preempts, Nat.zero_le _⟩
    | some round =>
      obtain ⟨slot, p, cpu⟩ := round
      have fewer := readyCount_preempted h preempts
      obtain ⟨takeovers, others, count⟩ := ih (matching_preempted h preempts) (by omega)
      refine ⟨_, .next preempts others, ?_⟩
      rw [List.length_cons]
      omega

namespace Takeovers
variable (rounds : Takeovers x takeovers y)
include rounds

theorem none_left : y.preemption? = none := by
  induction rounds with
  | ended none_left => exact none_left
  | next preempts others ih => exact ih

theorem matching (h : Matching x.held x.status?) : Matching y.held y.status? := by
  induction rounds with
  | ended none_left => exact h
  | next preempts others ih => exact ih (matching_preempted h preempts)

theorem now_eq (h : Matching x.held x.status?) : y.now = x.now := by
  induction rounds with
  | ended none_left => rfl
  | next preempts others ih =>
    rw [ih (matching_preempted h preempts), (seizes_of_preemption? h preempts).now_eq]

theorem policy_eq (h : Matching x.held x.status?) : y.policy = x.policy := by
  induction rounds with
  | ended none_left => rfl
  | next preempts others ih =>
    rw [ih (matching_preempted h preempts), policy_preempted h preempts]

/-- Every takeover is an exchange, and who is concerned by none is as before. -/
theorem exchanges (h : Matching x.held x.status?) : (∀ t ∈ takeovers, Exchanges x y t) ∧
    ∀ s, (∀ t ∈ takeovers, ¬ t.Concerns s) → y.procs[s]? = x.procs[s]? := by
  induction rounds with
  | ended none_left => exact ⟨nofun, fun _ _ => rfl⟩
  | @next x y cpu slot p takeovers preempts others ih =>
    have seizes := seizes_of_preemption? h preempts
    obtain ⟨later, others_kept⟩ := ih (matching_preempted h preempts)
    obtain ⟨found, ready, arrived, -⟩ := preemption?_eq_some preempts
    have slot_spared : ∀ t ∈ takeovers, ¬ t.Concerns slot := fun t member =>
      (later t member).spares_slot preempts seizes
    refine ⟨List.forall_mem_cons.2 ⟨?_, fun t member =>
      (later t member).of_round preempts seizes⟩, fun s unconcerned => ?_⟩
    · refine ⟨p, found, ready, arrived, ?_, fun victim holds => ?_⟩
      · rw [others_kept slot slot_spared, seizes.getElem?_procs_self found]
      · obtain ⟨v, at_slot, running, longer, evicted⟩ := seizes.getElem?_procs_victim holds
        have victim_spared : ∀ t ∈ takeovers, ¬ t.Concerns victim := fun t member =>
          (later t member).spares evicted rfl
        exact ⟨v, at_slot, running, longer, by rw [others_kept victim victim_spared, evicted]⟩
    · obtain ⟨spared, others_spared⟩ := List.forall_mem_cons.1 unconcerned
      rw [others_kept s others_spared]
      exact seizes.getElem?_procs_of_ne (fun same => spared (.inl same.symm))
        fun holds => spared (.inr holds)

end Takeovers

/-- Either nobody is ready, or every processor holds a process that has no more work left than any
ready one. -/
def Settled (m : Machine) : Prop :=
  (∀ r ∈ m.procs, r.arrival ≤ m.now → r.status ≠ .ready) ∨
    ∀ cpu < m.cpus.size, ∃ slot v, m.held cpu = some slot ∧ m.procs[slot]? = some v ∧
      ∀ r ∈ m.procs, r.arrival ≤ m.now → r.status = .ready → v.remaining ≤ r.remaining

theorem settled_of_preemption?_eq_none (h : Matching m.held m.status?)
    (none_left : m.preemption? = none) : m.Settled := by
  by_cases all_busy : ∀ cpu, m.isIdleAt cpu = false
  · refine .inr fun cpu inside => ?_
    obtain ⟨slot, holds⟩ : ∃ slot, m.held cpu = some slot := by
      refine Option.ne_none_iff_exists'.1 fun free => ?_
      exact absurd (isIdleAt_iff.2 ⟨inside, free⟩) (by simp [all_busy cpu])
    obtain ⟨v, at_slot, -⟩ := status?_eq_some.1 ((h cpu slot).1 holds)
    exact ⟨slot, v, holds, at_slot, fun r member arrived ready =>
      remaining_le_of_preemption?_eq_none none_left holds at_slot member arrived ready⟩
  · obtain ⟨cpu, idle⟩ := not_forall.1 all_busy
    exact .inl fun r member arrived =>
      not_ready_of_idle none_left (by simpa using idle) member arrived

/-! Filling without a queue. -/

/-- What a filling makes of the process of a slot: one that waits may get an idle processor. -/
theorem getElem?_procs_occupyThese (no_queue : m.policy.queue? = none) (cpus : List Nat) (s : Nat) :
    (m.occupyThese cpus).procs[s]? = m.procs[s]? ∨
      ∃ p cpu, m.procs[s]? = some p ∧ p.status = .waiting ∧ m.isIdleAt cpu = true ∧
        (m.occupyThese cpus).procs[s]? = some (p.dispatch cpu m.now) := by
  refine occupyThese_induction (P := fun _ x y => x.policy.queue? = none →
    y.procs[s]? = x.procs[s]? ∨
      ∃ p cpu, x.procs[s]? = some p ∧ p.status = .waiting ∧ x.isIdleAt cpu = true ∧
        y.procs[s]? = some (p.dispatch cpu x.now)) ?_ ?_ ?_ ?_ cpus m no_queue
  · exact fun _ _ => .inl rfl
  · exact fun _ _ _ _ ih => ih
  · exact fun _ _ _ _ _ _ => .inl rfl
  · intro cpu rest x slot idle chosen ih no_queue
    rw [choose_of_queue?_eq_none no_queue] at ih ⊢
    obtain ⟨p, found, waiting⟩ := waiting_of_choose no_queue chosen
    have dispatched : (x.dispatch cpu slot).procs[slot]? = some (p.dispatch cpu x.now) :=
      getElem?_procs_dispatch found
    have no_queue' : (x.dispatch cpu slot).policy.queue? = none := by rw [policy_dispatch, no_queue]
    rcases ih no_queue' with same | ⟨q, c, found', waiting', idle', final⟩
    · by_cases here : s = slot
      · subst here
        exact .inr ⟨p, cpu, found, waiting, idle, by rw [same, dispatched]⟩
      · exact .inl (by rw [same, getElem?_procs_dispatch_of_ne x cpu slot here])
    · have apart : s ≠ slot := by
        rintro rfl
        cases found'.symm.trans dispatched
        cases waiting'
      rw [getElem?_procs_dispatch_of_ne x cpu slot apart] at found'
      rw [now_dispatch] at final
      exact .inr ⟨q, c, found', waiting', (idle_of_dispatch found idle idle').2, final⟩

theorem now_occupyThese (cpus : List Nat) (m : Machine) : (m.occupyThese cpus).now = m.now :=
  occupyThese_induction (P := fun _ x y => y.now = x.now) (fun _ => rfl) (fun _ _ _ _ ih => ih)
    (fun _ _ _ _ _ => rfl) (fun _ _ x _ _ _ ih => ih.trans (now_dispatch x.choose.2 ..)) cpus m

theorem policy_occupyThese (no_queue : m.policy.queue? = none) (cpus : List Nat) :
    (m.occupyThese cpus).policy = m.policy := by
  refine occupyThese_induction
    (P := fun _ x y => x.policy.queue? = none → y.policy = x.policy) ?_ ?_ ?_ ?_ cpus m no_queue
  · exact fun _ _ => rfl
  · exact fun _ _ _ _ ih => ih
  · exact fun _ _ x _ _ no_queue => by rw [choose_of_queue?_eq_none no_queue]
  · intro cpu rest x slot _ _ ih no_queue
    rw [choose_of_queue?_eq_none no_queue] at ih ⊢
    rw [ih (by rw [policy_dispatch, no_queue]), policy_dispatch]

theorem idle_of_occupyThese {cpus : List Nat} (idle : (m.occupyThese cpus).isIdleAt cpu = true) :
    m.isIdleAt cpu = true := by
  by_contra working
  have same := held_occupyThese cpus m (.inr (Bool.eq_false_iff.2 working))
  rw [isIdleAt_eq_of_held_eq (size_cpus_occupyThese cpus m) same] at idle
  exact working idle

/-- When no preemption is possible and a filling leaves a processor idle, then all who have arrived
and have not finished are running. -/
theorem isRunning_of_idle_filled (none_left : m.preemption? = none)
    (no_queue : m.policy.queue? = none) (idle : m.occupyIdle.isIdleAt cpu = true)
    (member : p ∈ m.occupyIdle.procs) (arrived : p.arrival ≤ m.now)
    (unfinished : p.status ≠ .completed) : p.isRunning = true := by
  have before : m.isIdleAt cpu = true := idle_of_occupyThese idle
  have known : ∀ slot ∈ m.queued, slot < m.procs.length := by
    simp [queued, no_queue]
  have no_choice : m.occupyIdle.choose.1 = none :=
    choose_occupyThese known _ (List.mem_range.2 (isIdleAt_iff.1 before).1) idle
  have settled : p.status ≠ .waiting := by
    refine not_waiting_of_choose ?_ no_choice member ?_
    · rw [occupyIdle, policy_occupyThese no_queue, no_queue]
    · rwa [occupyIdle, now_occupyThese]
  obtain ⟨s, found⟩ := List.mem_iff_getElem?.1 member
  rcases getElem?_procs_occupyThese no_queue (List.range m.cpus.size) s with
    same | ⟨q, c, -, -, -, served⟩
  · have unready : p.status ≠ .ready :=
      not_ready_of_idle none_left before (List.mem_of_getElem? (same.symm.trans found)) arrived
    cases stands : p.status with
    | waiting => exact absurd stands settled
    | ready => exact absurd stands unready
    | running c => exact ProcessRecord.isRunning_iff.2 ⟨c, stands⟩
    | completed => exact absurd stands unfinished
  · obtain rfl : p = q.dispatch c m.now := Option.some.inj (found.symm.trans served)
    rfl

/-- A filling serves those who wait, and only when nobody is ready. It leaves a processor idle only
if all who have arrived and have not finished are running. -/
structure FillsLast (x y : Machine) : Prop where
  served : ∀ (s : Nat) (p : ProcessRecord), x.procs[s]? = some p → y.procs[s]? ≠ some p →
    p.status = .waiting ∧ (∃ cpu, y.procs[s]? = some (p.dispatch cpu x.now)) ∧
      ∀ r ∈ x.procs, r.arrival ≤ x.now → r.status ≠ .ready
  idle : ∀ cpu, y.isIdleAt cpu = true → ∀ p ∈ y.procs, p.arrival ≤ y.now →
    p.status ≠ .completed → p.isRunning = true

theorem fillsLast_occupyIdle (none_left : m.preemption? = none)
    (no_queue : m.policy.queue? = none) : FillsLast m m.occupyIdle := by
  constructor
  case served =>
    intro s p found changed
    rcases getElem?_procs_occupyThese no_queue (List.range m.cpus.size) s with
      same | ⟨q, c, found', waiting, idle, served⟩
    · exact absurd (same.trans found) changed
    · obtain rfl : p = q := Option.some.inj (found.symm.trans found')
      exact ⟨waiting, ⟨c, served⟩, fun r member arrived =>
        not_ready_of_idle none_left idle member arrived⟩
  case idle =>
    intro cpu idle p member arrived unfinished
    rw [occupyIdle, now_occupyThese] at arrived
    exact isRunning_of_idle_filled none_left no_queue idle member arrived unfinished

/-- Preemption comes to an end, with no more rounds than processes are ready, and then no ready
process is shorter than an occupant. Each round puts a ready process on a processor, for good; whom
it evicts ran before, had more work left, and waits from then on; all others stay as they are. The
filling after it serves those who wait only when nobody is ready. -/
theorem preempt_converges (h : Matching m.held m.status?) :
    ∃ takeovers, Takeovers m takeovers m.preempt ∧ takeovers.length ≤ m.readyCount ∧
      m.preempt.Settled ∧ (∀ t ∈ takeovers, Exchanges m m.preempt t) ∧
      (∀ t ∈ takeovers, ∀ u ∈ takeovers, t.victim? ≠ some u.slot) ∧
      (∀ s, (∀ t ∈ takeovers, ¬ t.Concerns s) → m.preempt.procs[s]? = m.procs[s]?) ∧
      (m.policy = .srtf → FillsLast m.preempt m.preempt.occupyIdle) := by
  obtain ⟨takeovers, rounds, count⟩ := takeovers_preemptAtMost h (Nat.le_refl m.readyCount)
  obtain ⟨exchanges, others⟩ := rounds.exchanges h
  have none_left : m.preempt.preemption? = none := rounds.none_left
  refine ⟨takeovers, rounds, count, settled_of_preemption?_eq_none (rounds.matching h) none_left,
    exchanges, fun t member u member' same => ?_, others, fun srtf => ?_⟩
  · -- who takes over was ready, and who is evicted ran
    obtain ⟨q, found, ready, -⟩ := exchanges u member'
    obtain ⟨p, -, -, -, -, evicts⟩ := exchanges t member
    obtain ⟨v, at_slot, running, -⟩ := evicts u.slot same
    cases found.symm.trans at_slot
    rw [ready] at running
    cases running
  · have policy : m.preempt.policy = .srtf := (rounds.policy_eq h).trans srtf
    exact fillsLast_occupyIdle none_left (by rw [policy]; rfl)

/-- Two processes on two processors, and then two shorter ones at once. -/
def crowded : Scenario :=
  { cpus := 2, cpus_pos := by decide
    jobs := [⟨1, 0, 9, 0⟩, ⟨2, 0, 8, 1⟩, ⟨3, 2, 1, 0⟩, ⟨4, 2, 5, 0⟩] }

/-- Each of the two that arrive evicts one of the two that run. -/
theorem preempt_converges_crowded :
    let m := ((boot crowded .srtf).steps 2).enrolled
    Matching m.held m.status? ∧ m.policy = .srtf ∧ m.readyCount = 2 ∧
      (m.held 0 = some 1 ∧ m.held 1 = some 0) ∧
      (m.preempt.held 0 = some 3 ∧ m.preempt.held 1 = some 2) ∧
      (∃ takeovers, Takeovers m takeovers m.preempt ∧ takeovers.length ≤ 2 ∧
        ∀ t ∈ takeovers, Exchanges m m.preempt t) ∧
      m.preempt.Settled ∧ FillsLast m.preempt m.preempt.occupyIdle := by
  intro m
  have matching : Matching m.held m.status? :=
    ((atRest_boot crowded .srtf 0 0).steps 2).consistent_stage .enrolled |>.matching
  have srtf : m.policy = .srtf := (atRest_boot crowded .srtf 0 0).policy_steps_eq rfl 2
  have count : m.readyCount = 2 := by decide +kernel
  obtain ⟨takeovers, rounds, few, settled, exchanges, -, -, fills⟩ := preempt_converges matching
  exact ⟨matching, srtf, count, by decide +kernel, by decide +kernel,
    ⟨takeovers, rounds, count ▸ few, exchanges⟩, settled, fills srtf⟩

end Machine
end CpuScheduling
