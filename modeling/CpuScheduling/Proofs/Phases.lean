import CpuScheduling.Proofs.Rescheduling
/-!
The phases of one tick by name, and the consistency of the machine after each of them. Between two
ticks a machine is at rest: those that arrive in the tick to come are untouched as well.
-/
namespace CpuScheduling

namespace ProcessRecord

/-- What the arrivals phase makes of a record. -/
def enroll (algorithm : Algorithm) (now : Nat) (p : ProcessRecord) : ProcessRecord :=
  if algorithm.marksReady then p.becomeReady now else p

variable (algorithm : Algorithm) (now : Nat) (p : ProcessRecord)

theorem enroll_cases : p.enroll algorithm now = p ∨
    p.status = .waiting ∧ p.arrival = now ∧ p.enroll algorithm now = { p with status := .ready } := by
  unfold enroll becomeReady
  split
  · split
    next at_once => exact .inr ⟨at_once.2, at_once.1, rfl⟩
    next => exact .inl rfl
  · exact .inl rfl

theorem account_enroll : (p.enroll algorithm now).account = p.account := by
  rcases p.enroll_cases algorithm now with same | ⟨waiting, -, ready⟩
  · rw [same]
  · rw [ready, account, account, isCompleted, isCompleted, waiting]
    rfl

theorem status_enroll {status : Status} (moved : status ≠ .waiting) (off : status ≠ .ready) :
    (p.enroll algorithm now).status = status ↔ p.status = status := by
  rcases p.enroll_cases algorithm now with same | ⟨waiting, -, ready⟩
  · rw [same]
  · rw [ready, waiting]
    exact ⟨fun same => absurd same.symm off, fun same => absurd same.symm moved⟩

theorem status_enroll_of_ready (ready : p.status = .ready) :
    (p.enroll algorithm now).status = .ready := by
  rcases p.enroll_cases algorithm now with same | ⟨-, -, made⟩
  · rw [same, ready]
  · rw [made]

theorem enroll_of_later (late : now < p.arrival) : p.enroll algorithm now = p := by
  rcases p.enroll_cases algorithm now with same | ⟨-, at_once, -⟩
  · exact same
  · omega

theorem arrival_enroll : (p.enroll algorithm now).arrival = p.arrival :=
  congrArg (·.job.arrival) (p.account_enroll algorithm now)

theorem isSpent_work : (p.work now).isSpent = decide (p.remaining ≤ 1) := by
  unfold work isSpent
  by_cases last : p.remaining ≤ 1
  · have none_left : p.remaining - 1 = 0 := by omega
    simp [none_left, last]
  · have some_left : p.remaining - 1 ≠ 0 := by omega
    simp [some_left, last]

variable {p} in
theorem work_of_last (last : p.remaining ≤ 1) : p.work now = { p with
    remaining := p.remaining - 1, sliceUsed := p.sliceUsed + 1, status := .completed,
    finish := some (now + 1) } := if_pos (Nat.sub_eq_zero_of_le last)

variable {p} in
theorem work_of_more (more : 1 < p.remaining) : p.work now = { p with
    remaining := p.remaining - 1, sliceUsed := p.sliceUsed + 1 } :=
  if_neg (Nat.sub_ne_zero_of_lt more)

theorem status_work : (p.work now).status = if p.remaining ≤ 1 then .completed else p.status := by
  split
  next last => rw [work_of_last now last]
  next more => rw [work_of_more now (Nat.lt_of_not_le more)]

theorem sliceUsed_work : (p.work now).sliceUsed = p.sliceUsed + 1 := by
  unfold work
  dsimp only
  split <;> rfl

theorem toJob_work : (p.work now).toJob = p.toJob := by
  unfold work
  dsimp only
  split <;> rfl

theorem toJob_ageWaiting : (p.ageWaiting now).toJob = p.toJob := by
  unfold ageWaiting
  split <;> rfl

theorem status_ageWaiting : (p.ageWaiting now).status = p.status := by
  unfold ageWaiting
  split <;> rfl

theorem ageWaiting_of_later (late : now < p.arrival) : p.ageWaiting now = p := by
  have absent : p.arrivedBy now = false := decide_eq_false (Nat.not_le_of_lt late)
  simp [ageWaiting, absent]

end ProcessRecord

namespace Machine

/-- After the arrivals of a step. -/
def enrolled (m : Machine) : Machine := m.stamped.enroll m.policy.algorithm

/-- After the arrivals have been sent to the queue, if there is one. -/
def enqueued (m : Machine) : Machine := m.arriving.foldl sendToQueue m.enrolled

/-- After expiries or preemptions. -/
def rescheduled (m : Machine) : Machine := m.enrolled.reschedule m.arriving

/-- After idle processors were filled. -/
def occupied (m : Machine) : Machine := m.rescheduled.occupyIdle

/-- After the row of the timeline was written. -/
def shown (m : Machine) : Machine := m.occupied.snapshot

/-- After waiting has accrued. -/
def aged (m : Machine) : Machine := m.shown.ageWaiting

/-- After the work of the tick. -/
def worked (m : Machine) : Machine := m.aged.work

theorem step_eq (m : Machine) : m.step = m.worked.advance := rfl

/-- The stages of a step: before it, and after each of its phases. -/
inductive Stage where
  | rest | stamped | enrolled | enqueued | rescheduled | occupied | shown | aged | worked

/-- A machine at a stage of its next step. -/
def stage (m : Machine) : Stage → Machine
  | .rest => m
  | .stamped => m.stamped
  | .enrolled => m.enrolled
  | .enqueued => m.enqueued
  | .rescheduled => m.rescheduled
  | .occupied => m.occupied
  | .shown => m.shown
  | .aged => m.aged
  | .worked => m.worked

/-- What holds of a machine between two ticks. -/
structure AtRest (m : Machine) : Prop extends Consistent m where
  untouched : ∀ p ∈ m.procs, m.now ≤ p.arrival → p = p.toJob.toRecord

variable {m : Machine}

/-! Arrivals. -/

theorem mem_arriving {slot : Nat} :
    slot ∈ m.arriving ↔ ∃ p, m.procs[slot]? = some p ∧ p.arrival = m.now := by
  simp [arriving, List.mk_mem_zipIdx_iff_getElem?]

theorem pairwise_arriving (m : Machine) : m.arriving.Pairwise (· < ·) := by
  have ascending : (m.procs.zipIdx.map (·.2)).Pairwise (· < ·) := by
    rw [List.zipIdx_map_snd]
    exact List.pairwise_lt_range'
  exact ascending.sublist (List.filter_sublist.map _)

theorem nodup_arriving (m : Machine) : m.arriving.Nodup :=
  m.pairwise_arriving.imp Nat.ne_of_lt

theorem procs_enrolled (m : Machine) :
    m.enrolled.procs = m.procs.map (·.enroll m.policy.algorithm m.now) := by
  show (if m.policy.algorithm.marksReady = true then _ else _) = _
  split
  next marks => simp only [ProcessRecord.enroll, marks, if_true]; rfl
  next marks => simp [ProcessRecord.enroll, marks, stamped]

theorem accounts_enrolled (m : Machine) : m.enrolled.accounts = m.accounts := by
  rw [accounts, procs_enrolled, List.map_map]
  exact List.map_congr_left fun p _ => p.account_enroll _ _

theorem status?_enrolled (slot : Nat) :
    m.enrolled.status? slot =
      m.procs[slot]?.map fun p => (p.enroll m.policy.algorithm m.now).status := by
  rw [status?, procs_enrolled, List.getElem?_map, Option.map_map]
  rfl

theorem Consistent.enrolled (h : Consistent m) : Consistent m.enrolled := by
  constructor
  case matching =>
    intro cpu slot
    have same_held : m.enrolled.held cpu = m.held cpu := rfl
    rw [same_held, h.matching, status?_enrolled, status?_eq_some, Option.map_eq_some_iff]
    refine exists_congr fun p => and_congr_right fun _ => Iff.symm ?_
    exact p.status_enroll _ _ nofun nofun
  case completed_eq =>
    rw [ProcessTable.countCompleted_eq]
    have same := h.completed_eq
    rw [ProcessTable.countCompleted_eq] at same
    exact same.trans (congrArg _ m.accounts_enrolled.symm)
  case queued_nodup =>
    exact h.queued_nodup
  case queued_ready =>
    intro slot member
    obtain ⟨p, found, ready⟩ := status?_eq_some.1 (h.queued_ready slot member)
    rw [status?_enrolled, found, Option.map_some, p.status_enroll_of_ready _ _ ready]
  case unarrived =>
    intro q member late
    rw [procs_enrolled] at member
    obtain ⟨p, old, rfl⟩ := List.mem_map.1 member
    rw [ProcessRecord.arrival_enroll] at late
    have same : p.enroll m.policy.algorithm m.now = p := p.enroll_of_later _ _ late
    rw [same]
    exact h.unarrived p old late

theorem AtRest.waiting_of_arriving (h : AtRest m) {slot : Nat} (member : slot ∈ m.arriving) :
    ∃ p, m.procs[slot]? = some p ∧ p.arrival = m.now ∧ p.status = .waiting := by
  obtain ⟨p, found, at_once⟩ := mem_arriving.1 member
  have fresh := h.untouched p (List.mem_of_getElem? found) (Nat.le_of_eq at_once.symm)
  exact ⟨p, found, at_once, by rw [fresh]; rfl⟩

theorem AtRest.ready_of_arriving (h : AtRest m) (marks : m.policy.algorithm.marksReady = true)
    {slot : Nat} (member : slot ∈ m.arriving) : m.enrolled.status? slot = some .ready := by
  obtain ⟨p, found, at_once, waiting⟩ := h.waiting_of_arriving member
  rw [status?_enrolled, found, Option.map_some, ProcessRecord.enroll, if_pos marks,
    ProcessRecord.becomeReady, if_pos ⟨at_once, waiting⟩]

theorem AtRest.unqueued_of_arriving (h : AtRest m) {slot : Nat} (member : slot ∈ m.arriving) :
    slot ∉ m.queued := by
  obtain ⟨p, found, -, waiting⟩ := h.waiting_of_arriving member
  exact h.not_queued (status?_eq_some.2 ⟨p, found, waiting⟩) nofun

/-! From the arrivals to the occupancy of the tick. -/

theorem foldl_sendToQueue_of_queue?_eq_none (slots : List Nat)
    (no_queue : m.policy.queue? = none) : slots.foldl sendToQueue m = m := by
  induction slots with
  | nil => rfl
  | cons slot slots ih => rw [List.foldl_cons, sendToQueue_of_queue?_eq_none no_queue, ih]

theorem AtRest.moves_enqueued (h : AtRest m) : Moves m.enrolled m.enqueued := by
  cases policy : m.policy with
  | fcfs | srtf | sjf =>
    have no_queue : m.enrolled.policy.queue? = none := by
      show m.policy.queue? = none
      rw [policy]
      rfl
    rw [enqueued, foldl_sendToQueue_of_queue?_eq_none _ no_queue]
  | roundRobin quantum queue =>
    have marks : m.policy.algorithm.marksReady = true := by rw [policy]; rfl
    exact moves_enqueueAll _ m.nodup_arriving (fun slot => h.ready_of_arriving marks)
      fun slot => h.unqueued_of_arriving

theorem enqueued_eq_enrolled (no_queue : m.policy.queue? = none) : m.enqueued = m.enrolled :=
  foldl_sendToQueue_of_queue?_eq_none _ no_queue

theorem rescheduled_eq (m : Machine) : m.rescheduled =
    match m.policy with
    | .roundRobin quantum _ => m.enqueued.endSlices quantum
    | .srtf => m.enqueued.preempt
    | .fcfs | .sjf => m.enqueued := by
  have same_policy : m.enrolled.policy = m.policy := rfl
  unfold rescheduled reschedule
  rw [same_policy]
  cases policy : m.policy with
  | roundRobin quantum queue => rfl
  | srtf | fcfs | sjf => rw [enqueued_eq_enrolled (by rw [policy]; rfl)]

/-- A policy that marks nobody only fills idle processors. -/
theorem rescheduled_of_unmarked (unmarked : m.policy.algorithm.marksReady = false) :
    m.rescheduled = m.enrolled := by
  rw [← enqueued_eq_enrolled (Policy.queue?_eq_none_of_unmarked unmarked), rescheduled_eq]
  cases policy : m.policy with
  | roundRobin | srtf => rw [policy] at unmarked; cases unmarked
  | fcfs | sjf => rfl

theorem moves_rescheduled (h : Consistent m.enqueued) : Moves m.enqueued m.rescheduled := by
  rw [rescheduled_eq]
  cases policy : m.policy with
  | roundRobin quantum queue => exact moves_endSlices h quantum
  | srtf =>
    have no_queue : m.policy.queue? = none := by rw [policy]; rfl
    rw [enqueued_eq_enrolled no_queue] at h ⊢
    exact moves_preemptAtMost h no_queue _
  | fcfs | sjf => exact .refl

theorem moves_occupied (h : Consistent m.rescheduled) : Moves m.rescheduled m.occupied :=
  moves_occupyIdle h

theorem AtRest.consistent_enqueued (h : AtRest m) : Consistent m.enqueued :=
  h.enrolled.moves h.moves_enqueued

theorem AtRest.consistent_rescheduled (h : AtRest m) : Consistent m.rescheduled :=
  h.consistent_enqueued.moves (moves_rescheduled h.consistent_enqueued)

/-- From the arrivals to the row of the timeline only moves are made. -/
theorem AtRest.moves_occupied (h : AtRest m) : Moves m.enrolled m.occupied :=
  (h.moves_enqueued.trans (moves_rescheduled h.consistent_enqueued)).trans
    (Machine.moves_occupied h.consistent_rescheduled)

end Machine
end CpuScheduling
