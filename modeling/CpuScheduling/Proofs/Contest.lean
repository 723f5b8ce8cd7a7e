import CpuScheduling.Proofs.Replay
import CpuScheduling.Proofs.Seizure
/-!
The contest for processors in a tick. If before the tick no processor holds a process with more
work left than a ready one, then only a process that arrives can evict, only an occupant from before
the tick is evicted, and whoever takes a processor stays.
-/
namespace CpuScheduling

/-- Every eviction among some events has an answer in the event right after it. -/
def Answered (answers : Event → Event → Prop) (events : List Event) : Prop :=
  ∀ i e, events[i]? = some e → e.kind = .preempted →
    ∃ e', events[i + 1]? = some e' ∧ answers e e'

namespace Answered
variable {answers : Event → Event → Prop} {events events' : List Event}

theorem of_none (none : ∀ e ∈ events, e.kind ≠ .preempted) : Answered answers events :=
  fun _ e found kind => absurd kind (none e (List.mem_of_getElem? found))

theorem pair {e e' : Event} (kind : e'.kind ≠ .preempted) (answer : answers e e') :
    Answered answers [e, e'] := by
  intro i a found evicted
  match i with
  | 0 =>
    obtain rfl : e = a := Option.some.inj found
    exact ⟨e', rfl, answer⟩
  | 1 =>
    obtain rfl : e' = a := Option.some.inj found
    exact absurd evicted kind
  | i + 2 => cases found

theorem append (h : Answered answers events) (h' : Answered answers events') :
    Answered answers (events ++ events') := by
  intro i e found kind
  by_cases first : i < events.length
  · rw [List.getElem?_append_left first] at found
    obtain ⟨e', next, answer⟩ := h i e found kind
    have inside := (List.getElem?_eq_some_iff.1 next).1
    exact ⟨e', (List.getElem?_append_left inside).trans next, answer⟩
  · have later : events.length ≤ i := Nat.le_of_not_lt first
    rw [List.getElem?_append_right later] at found
    obtain ⟨e', next, answer⟩ := h' _ e found kind
    refine ⟨e', ?_, answer⟩
    rw [List.getElem?_append_right (Nat.le_succ_of_le later), Nat.succ_sub later]
    exact next

theorem mono {wider : Event → Event → Prop} (h : Answered answers events)
    (le : ∀ e ∈ events, ∀ e' ∈ events, e.kind = .preempted → answers e e' → wider e e') :
    Answered wider events := by
  intro i e found kind
  obtain ⟨e', next, answer⟩ := h i e found kind
  exact ⟨e', next, le e (List.mem_of_getElem? found) e' (List.mem_of_getElem? next) kind answer⟩

end Answered

/-- Two dispatches of one tick are on different processors. -/
def Event.Apart (a b : Event) : Prop :=
  a.kind = .dispatched → b.kind = .dispatched → a.tick = b.tick → a.cpu ≠ b.cpu

namespace Machine
variable {m x y : Machine} {cpu slot : Nat} {p : ProcessRecord}

/-- Between two ticks: the processes are orderly, no processor holds one that a ready one could
evict, and the evictions so far are fewer than the dispatched processes. -/
structure Converged (m : Machine) : Prop where
  orderly : m.Orderly
  settled : ∀ cpu slot, m.held cpu = some slot → m.Leads slot
  solvent : m.Solvent

/-- An eviction in the tick to come and the event after it, as the machine before the tick and the
one at its row show them: the occupant of a processor makes room for a process that arrives in this
tick, was never dispatched before, and needs strictly less than the occupant has left. The process
has the processor at the row of the tick, and the evicted one waits. -/
def Replaces (m row : Machine) (victim : Nat) (e e' : Event) : Prop :=
  ∃ v slot p, m.held e.cpu = some victim ∧ m.procs[victim]? = some v ∧
    e = ⟨m.now, e.cpu, .preempted, v.pid⟩ ∧
    m.procs[slot]? = some p ∧ p.arrival = m.now ∧ p.start = none ∧ p.burst < v.remaining ∧
    e' = ⟨m.now, e.cpu, .dispatched, p.pid⟩ ∧
    row.held e.cpu = some slot ∧ row.status? victim = some .waiting

/-- A machine amid the preemptions of a tick. -/
structure Contest (m x : Machine) : Prop extends Consistent x where
  no_queue : x.policy.queue? = none
  since : Moves m.enrolled x
  orderly : x.Orderly
  solvent : x.Solvent
  /-- A processor holds what it held before the tick, unless its occupant is safe from now on. -/
  kept : ∀ cpu, x.Firm cpu ∨ x.held cpu = m.held cpu
  entered : ∀ slot, x.status? slot = some .ready → m.status? slot = some .ready ∨ slot ∈ m.arriving

/-- What preemptions from one machine to another leave alone, and the events that they add. -/
structure Resolves (m x y : Machine) (events : List Event) : Prop where
  trace : y.trace.toList = x.trace.toList ++ events
  firm : ∀ cpu, x.Firm cpu → y.Firm cpu ∧ y.held cpu = x.held cpu ∧ ∀ e ∈ events, e.cpu ≠ cpu
  touched : ∀ e ∈ events, y.Firm e.cpu
  waiting : ∀ slot, x.status? slot = some .waiting → y.status? slot = some .waiting
  full : (∀ cpu, x.isIdleAt cpu = false) → ∀ cpu, y.isIdleAt cpu = false
  evicting : ∀ e ∈ events, e.kind = .preempted → ∀ cpu, y.isIdleAt cpu = false
  answered : Answered (fun e e' => ∃ victim, Replaces m y victim e e') events
  shown : ∀ e ∈ events, e.kind = .dispatched → y.running e.cpu = some e.pid
  apart : events.Pairwise Event.Apart

theorem Contest.accounts_eq (c : Contest m x) : x.accounts = m.accounts :=
  c.since.accounts_eq.trans m.accounts_enrolled

theorem Contest.now_eq (c : Contest m x) : x.now = m.now := c.since.now_eq

theorem Resolves.refl (m x : Machine) : Resolves m x x [] where
  trace := (List.append_nil _).symm
  firm _ firm := ⟨firm, rfl, nofun⟩
  touched := nofun
  waiting _ waits := waits
  full busy := busy
  evicting := nofun
  answered := .of_none nofun
  shown := nofun
  apart := .nil

theorem Resolves.trans {z : Machine} {events events' : List Event} (jobs : z.jobs = y.jobs)
    (r : Resolves m x y events) (r' : Resolves m y z events') :
    Resolves m x z (events ++ events') := by
  have settled : ∀ e ∈ events, z.held e.cpu = y.held e.cpu := fun e member =>
    (r'.firm e.cpu (r.touched e member)).2.1
  constructor
  case trace => rw [r'.trace, r.trace, List.append_assoc]
  case firm =>
    intro cpu firm
    obtain ⟨firm', same, elsewhere⟩ := r.firm cpu firm
    obtain ⟨firm'', same', elsewhere'⟩ := r'.firm cpu firm'
    exact ⟨firm'', same'.trans same, fun e member =>
      (List.mem_append.1 member).elim (elsewhere e) (elsewhere' e)⟩
  case touched =>
    intro e member
    rcases List.mem_append.1 member with early | late
    · exact (r'.firm e.cpu (r.touched e early)).1
    · exact r'.touched e late
  case waiting => exact fun slot waits => r'.waiting slot (r.waiting slot waits)
  case full => exact fun busy => r'.full (r.full busy)
  case evicting =>
    intro e member kind
    rcases List.mem_append.1 member with early | late
    · exact r'.full (r.evicting e early kind)
    · exact r'.evicting e late kind
  case answered =>
    refine (r.answered.mono ?_).append r'.answered
    rintro e member e' - - ⟨victim, v, slot, p, holds, found, made, found', at_once, fresh, less,
      made', shown, waits⟩
    exact ⟨victim, v, slot, p, holds, found, made, found', at_once, fresh, less, made',
      (settled e member).trans shown, r'.waiting victim waits⟩
  case shown =>
    intro e member kind
    rcases List.mem_append.1 member with early | late
    · rw [Machine.running, settled e early, jobs]
      exact r.shown e early kind
    · exact r'.shown e late kind
  case apart =>
    refine List.pairwise_append.2 ⟨r.apart, r'.apart, fun a early b late _ _ _ => ?_⟩
    exact ((r'.firm a.cpu (r.touched a early)).2.2 b late).symm

section Contest
variable (rest : AtRest m) (conv : Converged m) (c : Contest m x)
  (preempts : x.preemption? = some (slot, p, cpu))
include rest conv c preempts

/-- Only a process that arrives in this tick evicts, and only one that the processor held before. -/
theorem Contest.replaces (row : Machine) {victim : Nat} {v : ProcessRecord}
    (holds : x.held cpu = some victim) (at_slot : x.procs[victim]? = some v)
    (longer : p.remaining < v.remaining) (seized : row.held cpu = some slot)
    (waits : row.status? victim = some .waiting) :
    Replaces m row victim ⟨m.now, cpu, .preempted, v.pid⟩ ⟨m.now, cpu, .dispatched, p.pid⟩ := by
  obtain ⟨found, ready, arrived, -⟩ := preemption?_eq_some preempts
  have before : m.held cpu = some victim := by
    rcases c.kept cpu with firm | same
    · exact absurd rfl (ne_of_firm preempts firm)
    · exact same.symm.trans holds
  have left_eq : x.left = m.left := left_eq_of_accounts_eq c.accounts_eq
  -- a process that was ready before the tick has no less work left than any occupant
  have new : slot ∈ m.arriving := by
    rcases c.entered slot (status?_eq_some.2 ⟨p, found, ready⟩) with old | new
    · have least := conv.settled cpu victim before slot old
      rw [← left_eq, left_of_getElem? found, left_of_getElem? at_slot] at least
      exact absurd longer (Nat.not_lt_of_le least)
    · exact new
  obtain ⟨p₀, found₀, at_once⟩ := mem_arriving.1 new
  obtain ⟨v₀, at_slot₀, same_v⟩ := exists_account_eq c.accounts_eq at_slot
  obtain ⟨p₁, found₁, same_p⟩ := exists_account_eq c.accounts_eq found
  obtain rfl : p₀ = p₁ := Option.some.inj (found₀.symm.trans found₁)
  have untouched := rest.untouched p₀ (List.mem_of_getElem? found₀) (Nat.le_of_eq at_once.symm)
  have burst : p₀.burst = p.remaining := by
    rw [← show p₀.remaining = p.remaining from congrArg (·.remaining) same_p, untouched]
    rfl
  have pid : p₀.pid = p.pid := congrArg (·.job.pid) same_p
  have pid' : v₀.pid = v.pid := congrArg (·.job.pid) same_v
  have work : v₀.remaining = v.remaining := congrArg (·.remaining) same_v
  refine ⟨v₀, slot, p₀, before, at_slot₀, by rw [pid'], found₀, at_once, by rw [untouched]; rfl, ?_,
    by rw [pid], seized, waits⟩
  rw [burst, work]
  exact longer

end Contest

theorem Contest.start (rest : AtRest m) (conv : Converged m) (no_queue : m.policy.queue? = none) :
    Contest m m.enrolled where
  toConsistent := rest.enrolled
  no_queue := no_queue
  since := .refl
  orderly := by
    intro q member
    rw [procs_enrolled] at member
    obtain ⟨p, old, rfl⟩ := List.mem_map.1 member
    refine (conv.orderly p old).enroll _ fun at_once => ?_
    rw [rest.untouched p old (Nat.le_of_eq at_once.symm)]
    rfl
  solvent := by
    have same : m.enrolled.started = m.started := by
      rw [started, procs_enrolled, List.countP_map]
      exact List.countP_congr fun p _ => by rw [Function.comp_apply, p.start_enroll]
    unfold Solvent
    rw [same]
    exact conv.solvent
  kept _ := .inr rfl
  entered slot ready := by
    rw [status?_enrolled] at ready
    obtain ⟨p, found, ready⟩ := Option.map_eq_some_iff.1 ready
    rcases p.enroll_cases m.policy.algorithm m.now with same | ⟨-, at_once, -⟩
    · exact .inl (status?_eq_some.2 ⟨p, found, same ▸ ready⟩)
    · exact .inr (mem_arriving.2 ⟨p, found, at_once⟩)

section Next
variable (c : Contest m x) (preempts : x.preemption? = some (slot, p, cpu))
include c preempts

theorem Contest.left_next : ((x.evict cpu p.pid).dispatch cpu slot).left = x.left :=
  left_eq_of_accounts_eq (moves_preempted c.toConsistent c.no_queue preempts).accounts_eq

theorem Contest.held_next :
    ((x.evict cpu p.pid).dispatch cpu slot).held = Function.update x.held cpu (some slot) := by
  obtain ⟨found, -, -, inside, -⟩ := preemption?_eq_some preempts
  exact (seizes_of_preemption? c.matching preempts).held found inside

theorem Contest.firm_next : ((x.evict cpu p.pid).dispatch cpu slot).Firm cpu := by
  obtain ⟨found, -⟩ := preemption?_eq_some preempts
  refine ⟨slot, by rw [c.held_next preempts, Function.update_self], ?_⟩
  exact (seizes_of_preemption? c.matching preempts).leads found (c.left_next preempts)
    (leads_of_preemption? c.toConsistent preempts)

theorem Contest.firm_of_firm (c' : Nat) (firm : x.Firm c') :
    ((x.evict cpu p.pid).dispatch cpu slot).Firm c' ∧
      ((x.evict cpu p.pid).dispatch cpu slot).held c' = x.held c' := by
  obtain ⟨found, -⟩ := preemption?_eq_some preempts
  have same : ((x.evict cpu p.pid).dispatch cpu slot).held c' = x.held c' := by
    rw [c.held_next preempts, Function.update_of_ne (ne_of_firm preempts firm)]
  obtain ⟨s, holds, leads⟩ := firm
  exact ⟨⟨s, same.trans holds, (seizes_of_preemption? c.matching preempts).leads found
    (c.left_next preempts) leads⟩, same⟩

theorem Contest.next : Contest m ((x.evict cpu p.pid).dispatch cpu slot) where
  toConsistent := c.moves (moves_preempted c.toConsistent c.no_queue preempts)
  no_queue := by rw [policy_preempted c.matching preempts, c.no_queue]
  since := c.since.trans (moves_preempted c.toConsistent c.no_queue preempts)
  orderly := (c.orderly.evict cpu p.pid).dispatch cpu slot
  solvent := by
    obtain ⟨found, ready, -⟩ := preemption?_eq_some preempts
    have fresh := (c.orderly p (List.mem_of_getElem? found)).1 ready
    exact (seizes_of_preemption? c.matching preempts).solvent found fresh c.solvent c.orderly
  kept c' := by
    by_cases here : c' = cpu
    · subst here
      exact .inl (c.firm_next preempts)
    · rcases c.kept c' with firm | same
      · exact .inl (c.firm_of_firm preempts c' firm).1
      · right
        rw [c.held_next preempts, Function.update_of_ne here, same]
  entered s ready := by
    obtain ⟨found, -⟩ := preemption?_eq_some preempts
    exact c.entered s ((seizes_of_preemption? c.matching preempts).ready_of found ready)

variable (rest : AtRest m) (conv : Converged m)
include rest conv

theorem Contest.resolves_next :
    ∃ events, Resolves m x ((x.evict cpu p.pid).dispatch cpu slot) events := by
  obtain ⟨found, ready, -, -, -⟩ := preemption?_eq_some preempts
  have seizes := seizes_of_preemption? c.matching preempts
  have moved := moves_preempted c.toConsistent c.no_queue preempts
  have replaces := c.replaces rest conv preempts
  have stays := fun c' => c.firm_of_firm preempts c'
  have held := c.held_next preempts
  have firm := c.firm_next preempts
  generalize (x.evict cpu p.pid).dispatch cpu slot = x' at *
  have holds : x'.held cpu = some slot := by rw [held, Function.update_self]
  have shown : x'.running cpu = some p.pid := by
    rw [running, holds, Option.bind_some, jobs_eq_of_accounts_eq moved.accounts_eq,
      pid_of_getElem? found]
  have full : (∀ c', x.isIdleAt c' = false) → ∀ c', x'.isIdleAt c' = false := by
    intro busy c'
    by_cases here : c' = cpu
    · rw [Bool.eq_false_iff, ne_eq, isIdleAt_iff, here, holds]
      rintro ⟨-, idle⟩
      cases idle
    · rw [isIdleAt_eq_of_held_eq moved.size_cpus_eq, busy c']
      rw [held, Function.update_of_ne here]
  have waiting := fun s => seizes.waiting (s := s) found ready
  -- all that is recorded is on the one processor, which has a firm occupant from now on
  have resolves : ∀ events, x'.trace.toList = x.trace.toList ++ events →
      (∀ e ∈ events, e.cpu = cpu) →
      (∀ e ∈ events, e.kind = .preempted → ∀ c', x'.isIdleAt c' = false) →
      Answered (fun e e' => ∃ victim, Replaces m x' victim e e') events →
      (∀ e ∈ events, e.kind = .dispatched → e.pid = p.pid) → events.Pairwise Event.Apart →
      Resolves m x x' events := by
    intro events trace here evicting answered pid apart
    refine ⟨trace, fun c' old => ?_, ?_, waiting, full, evicting, answered, ?_, apart⟩
    · obtain ⟨firm', same⟩ := stays c' old
      exact ⟨firm', same, fun e member => here e member ▸ (ne_of_firm preempts old).symm⟩
    · exact fun e member => (here e member).symm ▸ firm
    · exact fun e member kind => by rw [here e member, pid e member kind, shown]
  have now := c.now_eq
  cases seizes with
  | idle free =>
    refine ⟨[⟨m.now, cpu, .dispatched, p.pid⟩], resolves _ ?_ ?_ ?_ (.of_none ?_) ?_
      (List.pairwise_singleton _ _)⟩
    · rw [dispatch_eq x cpu slot found, Array.toList_push, now]
    all_goals simp
  | @busy victim v busy at_cpu at_slot running longer other notice =>
    have found' : (x.vacate cpu victim v .waiting .preempted notice).procs[slot]? = some p :=
      (List.getElem?_set_ne other).trans found
    have waits : ((x.vacate cpu victim v .waiting .preempted notice).dispatch cpu slot).status?
        victim = some .waiting := by
      rw [status?_dispatch found', Function.update_of_ne other, status?_vacate at_slot,
        Function.update_self]
    have answer := replaces _ at_cpu at_slot longer holds waits
    refine ⟨[⟨m.now, cpu, .preempted, v.pid⟩, ⟨m.now, cpu, .dispatched, p.pid⟩],
      resolves _ ?_ ?_ (fun _ _ _ => full busy) (.pair ?_ ⟨victim, answer⟩) ?_ ?_⟩
    · rw [dispatch_eq _ cpu slot found', Array.toList_push, vacate, Array.toList_push, now,
        List.append_assoc]
      rfl
    all_goals simp [Event.Apart]

end Next

theorem Contest.resolves (c : Contest m x) (rest : AtRest m) (conv : Converged m) (n : Nat) :
    Contest m (preemptAtMost n x) ∧ ∃ events, Resolves m x (preemptAtMost n x) events := by
  induction n generalizing x with
  | zero => exact ⟨c, [], .refl m x⟩
  | succ n ih =>
    unfold preemptAtMost
    cases preempts : x.preemption? with
    | none => exact ⟨c, [], .refl m x⟩
    | some round =>
      obtain ⟨slot, p, cpu⟩ := round
      have next := c.next preempts
      obtain ⟨events, first⟩ := c.resolves_next preempts rest conv
      obtain ⟨last, events', others⟩ := ih next
      have same := last.accounts_eq.trans next.accounts_eq.symm
      exact ⟨last, _, first.trans (jobs_eq_of_accounts_eq same) others⟩

end Machine
end CpuScheduling
