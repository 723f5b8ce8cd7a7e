import CpuScheduling.Proofs.Views
/-!
What the choices of a policy are made of: a chosen slot holds a process that qualifies, and nothing
is chosen only if nothing qualifies.
-/
namespace CpuScheduling

namespace Selection

theorem bestIndex_eq_some {α : Type} {qualifies : α → Bool} {beats : α → α → Bool}
    {entries : List α} {i : Nat} (h : bestIndex qualifies beats entries = some i) :
    ∃ a, entries[i]? = some a ∧ qualifies a = true := by
  obtain ⟨⟨a, j⟩, chosen, rfl⟩ := Option.map_eq_some_iff.1 h
  obtain ⟨member, fits⟩ := List.mem_filter.1 (mem_of_best_eq_some chosen)
  exact ⟨a, List.mk_mem_zipIdx_iff_getElem?.1 member, fits⟩

theorem bestIndex_eq_none_iff {α : Type} {qualifies : α → Bool} {beats : α → α → Bool}
    {entries : List α} :
    bestIndex qualifies beats entries = none ↔ ∀ a ∈ entries, qualifies a = false := by
  rw [bestIndex, Option.map_eq_none_iff, best_eq_none_iff, List.filter_eq_nil_iff]
  constructor
  · intro h a member
    obtain ⟨i, found⟩ := List.mem_iff_getElem?.1 member
    exact Bool.eq_false_iff.2 (h (a, i) (List.mk_mem_zipIdx_iff_getElem?.2 found))
  · rintro h ⟨a, i⟩ member
    have found := List.mk_mem_zipIdx_iff_getElem?.1 member
    exact Bool.eq_false_iff.1 (h a (List.mem_of_getElem? found))

variable {procs : List ProcessRecord} {now slot : Nat}

theorem bestWaiting?_eq_some {key : ProcessRecord → Nat}
    (h : bestWaiting? key procs now = some slot) :
    ∃ p, procs[slot]? = some p ∧ p.status = .waiting ∧ p.arrival ≤ now := by
  obtain ⟨p, found, fits⟩ := bestIndex_eq_some h
  simp only [ProcessRecord.arrivedBy, Bool.and_eq_true, decide_eq_true_eq] at fits
  exact ⟨p, found, fits⟩

theorem bestWaiting?_eq_none_iff {key : ProcessRecord → Nat} :
    bestWaiting? key procs now = none ↔ ∀ p ∈ procs, p.status = .waiting → now < p.arrival := by
  simp [bestWaiting?, bestIndex_eq_none_iff, ProcessRecord.arrivedBy]

theorem challenger?_eq_some (h : challenger? procs now = some slot) :
    ∃ p, procs[slot]? = some p ∧ p.status = .ready ∧ p.arrival ≤ now := by
  obtain ⟨p, found, fits⟩ := bestIndex_eq_some h
  simp only [ProcessRecord.arrivedBy, Bool.and_eq_true, decide_eq_true_eq] at fits
  exact ⟨p, found, fits⟩

theorem challenger?_eq_none_iff :
    challenger? procs now = none ↔ ∀ p ∈ procs, p.status = .ready → now < p.arrival := by
  simp [challenger?, bestIndex_eq_none_iff, ProcessRecord.arrivedBy]

theorem mem_victims {cpus : List Cpu} {remaining cpu : Nat} {p : ProcessRecord} :
    (p, cpu) ∈ victims cpus procs remaining ↔
      ∃ c, cpus[cpu]? = some c ∧ occupant? procs c = some p ∧ remaining < p.remaining := by
  simp only [victims, List.mem_filterMap, Prod.exists, List.mk_mem_zipIdx_iff_getElem?,
    Option.bind_eq_some_iff, Option.ite_none_right_eq_some, Option.some.injEq, Prod.mk.injEq]
  constructor
  · rintro ⟨c, i, found, q, occupied, longer, rfl, rfl⟩
    exact ⟨c, found, occupied, longer⟩
  · rintro ⟨c, found, occupied, longer⟩
    exact ⟨c, cpu, found, p, occupied, longer, rfl, rfl⟩

/-- A place is an idle processor, or one whose occupant has strictly more work left. -/
theorem placeFor?_eq_some {cpus : List Cpu} {cpu : Nat} (h : placeFor? cpus procs slot = some cpu) :
    ∃ c, cpus[cpu]? = some c ∧ (c.isIdle = true ∨ ∃ p victim, procs[slot]? = some p ∧
      occupant? procs c = some victim ∧ p.remaining < victim.remaining) := by
  unfold placeFor? at h
  split at h
  next i first =>
    cases h
    obtain ⟨inside, idle, -⟩ := List.findIdx?_eq_some_iff_getElem.1 first
    exact ⟨cpus[cpu], List.getElem?_eq_getElem inside, .inl idle⟩
  next =>
    obtain ⟨p, found, h⟩ := Option.bind_eq_some_iff.1 h
    obtain ⟨⟨victim, i⟩, chosen, h⟩ := Option.bind_eq_some_iff.1 h
    cases h
    obtain ⟨c, at_cpu, occupied, longer⟩ := mem_victims.1 (mem_of_best_eq_some chosen)
    exact ⟨c, at_cpu, .inr ⟨p, victim, found, occupied, longer⟩⟩

theorem placeFor?_ne_none {cpus : List Cpu} {c : Cpu} (member : c ∈ cpus)
    (idle : c.isIdle = true) : placeFor? cpus procs slot ≠ none := by
  intro h
  unfold placeFor? at h
  split at h
  · cases h
  next none_idle =>
    have busy := List.findIdx?_eq_none_iff.1 none_idle c member
    rw [idle] at busy
    cases busy

end Selection

namespace Machine

/-- A policy either takes the front of its queue or scans the table by some key. -/
theorem choose_cases (m : Machine) :
    (∃ quantum queue, m.policy = .roundRobin quantum queue ∧ m.choose =
        (queue.slots.head?, { m with policy := .roundRobin quantum queue.dequeue.2 })) ∨
      m.policy.queue? = none ∧
        ∃ key, m.choose = (Selection.bestWaiting? key m.procs m.now, m) := by
  unfold choose
  cases m with
  | mk procs cpus policy timeline trace now completed dropped journal =>
    cases policy with
    | fcfs => exact .inr ⟨rfl, (·.arrival), rfl⟩
    | roundRobin quantum queue => exact .inl ⟨quantum, queue, rfl, by rw [← queue.fst_dequeue]; rfl⟩
    | srtf => exact .inr ⟨rfl, (·.remaining), rfl⟩
    | sjf => exact .inr ⟨rfl, (·.burst), rfl⟩

theorem choose_of_queue?_eq_none {m : Machine} (no_queue : m.policy.queue? = none) :
    m.choose.2 = m := by
  rcases m.choose_cases with ⟨quantum, queue, policy, -⟩ | ⟨-, key, choice⟩
  · rw [policy] at no_queue
    cases no_queue
  · rw [choice]

theorem queued_choose {m : Machine} (turns : m.policy.algorithm = .roundRobin) :
    m.queued = m.choose.1.toList ++ m.choose.2.queued ∧
      m.choose.2.policy.algorithm = .roundRobin := by
  rcases m.choose_cases with ⟨quantum, queue, policy, choice⟩ | ⟨no_queue, -⟩
  · have queued_eq : m.queued = queue.slots := by rw [queued, policy]; rfl
    have rest : (m.choose.2).queued = queue.slots.tail := by
      rw [choice, ← queue.slots_dequeue]
      rfl
    rw [rest, queued_eq, choice]
    refine ⟨?_, rfl⟩
    cases queue.slots <;> rfl
  · obtain ⟨quantum, queue, policy⟩ := Policy.eq_roundRobin_of_algorithm_eq turns
    rw [policy] at no_queue
    cases no_queue

theorem mem_queued_of_choose {m : Machine} {slot : Nat} (member : slot ∈ m.choose.2.queued) :
    slot ∈ m.queued := by
  rcases m.choose_cases with ⟨quantum, queue, policy, -⟩ | ⟨no_queue, -⟩
  · have turns : m.policy.algorithm = .roundRobin := by rw [policy]; rfl
    rw [(queued_choose turns).1]
    exact List.mem_append_right _ member
  · rwa [choose_of_queue?_eq_none no_queue] at member

/-- If the queued slots are in the table, so is what the policy chooses. -/
theorem found_of_choose {m : Machine} (known : ∀ slot ∈ m.queued, slot < m.procs.length)
    {slot : Nat} (chosen : m.choose.1 = some slot) : ∃ p, m.choose.2.procs[slot]? = some p := by
  rcases m.choose_cases with ⟨quantum, queue, policy, -⟩ | ⟨-, key, choice⟩
  · have turns : m.policy.algorithm = .roundRobin := by rw [policy]; rfl
    have front : slot ∈ m.queued := by
      rw [(queued_choose turns).1, chosen]
      exact List.mem_cons_self
    exact ⟨_, List.getElem?_eq_getElem (known slot front)⟩
  · rw [choice] at chosen ⊢
    obtain ⟨p, found, -⟩ := Selection.bestWaiting?_eq_some chosen
    exact ⟨p, found⟩

theorem queued_eq_nil_of_choose {m : Machine} (no_choice : m.choose.1 = none) :
    m.queued = [] := by
  rcases m.choose_cases with ⟨quantum, queue, policy, choice⟩ | ⟨no_queue, -⟩
  · rw [choice] at no_choice
    rw [queued, policy]
    exact List.head?_eq_none_iff.1 no_choice
  · rw [queued, no_queue]
    rfl

theorem not_waiting_of_choose {m : Machine} (no_queue : m.policy.queue? = none)
    (no_choice : m.choose.1 = none) {p : ProcessRecord} (member : p ∈ m.procs)
    (arrived : p.arrival ≤ m.now) : p.status ≠ .waiting := by
  rcases m.choose_cases with ⟨quantum, queue, policy, -⟩ | ⟨-, key, choice⟩
  · rw [policy] at no_queue
    cases no_queue
  · intro waiting
    rw [choice] at no_choice
    have late := Selection.bestWaiting?_eq_none_iff.1 no_choice p member waiting
    exact Nat.not_lt_of_le arrived late

theorem waiting_of_choose {m : Machine} (no_queue : m.policy.queue? = none) {slot : Nat}
    (chosen : m.choose.1 = some slot) : ∃ p, m.procs[slot]? = some p ∧ p.status = .waiting := by
  rcases m.choose_cases with ⟨quantum, queue, policy, -⟩ | ⟨-, key, choice⟩
  · rw [policy] at no_queue
    cases no_queue
  · rw [choice] at chosen
    obtain ⟨p, found, waiting, -⟩ := Selection.bestWaiting?_eq_some chosen
    exact ⟨p, found, waiting⟩

/-- A policy that has nothing to choose stays as it is. -/
theorem choose_of_no_choice {m : Machine} (no_choice : m.choose.1 = none) : m.choose.2 = m := by
  rcases m.choose_cases with ⟨quantum, queue, policy, choice⟩ | ⟨-, key, choice⟩
  · rw [choice] at no_choice ⊢
    obtain ⟨slots, capacity, bound⟩ := queue
    obtain rfl : slots = [] := List.head?_eq_none_iff.1 no_choice
    show { m with policy := .roundRobin quantum ⟨[], capacity, bound⟩ } = m
    rw [← policy]
  · rw [choice]

/-- A policy that has nothing to choose still has nothing when it is asked again. -/
theorem choose_choose {m : Machine} (no_choice : m.choose.1 = none) :
    m.choose.2.choose.1 = none := by
  rw [choose_of_no_choice no_choice, no_choice]

end Machine
end CpuScheduling
