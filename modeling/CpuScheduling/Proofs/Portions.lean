import CpuScheduling.Proofs.Queueing
import CpuScheduling.Proofs.Replay
/-!
Slices as a processor sees them and as a process does. On a processor the events of a trace are
measured if each dispatch is followed by what ends its slice, an expiry after just a quantum or a
completion after a quantum at most. A process is portioned if its dispatches and expiries are as many
as the work that it has done takes quanta.
-/
namespace CpuScheduling

/-! Events of one processor. -/

/-- An event may end the slice that a dispatch began: the same process leaves. -/
def Event.EndsSlice (e : Event) (quantum : Nat) (start : Event) : Prop :=
  e.pid = start.pid ∧ (e.kind = .expired ∧ e.tick = start.tick + quantum ∨
    e.kind = .completed ∧ start.tick + 1 ≤ e.tick ∧ e.tick ≤ start.tick + quantum)

/-- Events of one processor that alternate between dispatches and the ends of slices. If the last is
a dispatch, the slice that it began is open. -/
inductive Measured (quantum : Nat) : List Event → Option Event → Prop
  | nil : Measured quantum [] none
  | start {events : List Event} {e : Event} (before : Measured quantum events none)
      (kind : e.kind = .dispatched) : Measured quantum (events ++ [e]) (some e)
  | finish {events : List Event} {start e : Event} (before : Measured quantum events (some start))
      (ends : e.EndsSlice quantum start) : Measured quantum (events ++ [e]) none

/-- Two neighbours in a list with one more element at its end are neighbours in the list, or its
last element and the one more. -/
theorem getElem?_concat_pair {α : Type} {l : List α} {a b c : α} {i : Nat}
    (found : (l ++ [c])[i]? = some a) (next : (l ++ [c])[i + 1]? = some b) :
    l[i]? = some a ∧ l[i + 1]? = some b ∨ l.getLast? = some a ∧ c = b := by
  by_cases inside : i + 1 < l.length
  · rw [List.getElem?_append_left (Nat.lt_of_succ_lt inside)] at found
    rw [List.getElem?_append_left inside] at next
    exact .inl ⟨found, next⟩
  · have bound := (List.getElem?_eq_some_iff.1 next).1
    rw [List.length_append, List.length_singleton] at bound
    have last : i + 1 = l.length := by omega
    rw [last, List.getElem?_concat_length] at next
    rw [List.getElem?_append_left (by omega)] at found
    exact .inr ⟨by rw [List.getLast?_eq_getElem?, ← last, Nat.add_sub_cancel, found],
      Option.some.inj next⟩

namespace Measured
variable {quantum : Nat} {events : List Event} {since? : Option Event}

theorem kind_ne_preempted (h : Measured quantum events since?) :
    ∀ e ∈ events, e.kind ≠ .preempted := by
  induction h with
  | nil => simp
  | start before kind ih =>
    refine List.forall_mem_append.2 ⟨ih, List.forall_mem_singleton.2 ?_⟩
    rw [kind]
    exact nofun
  | finish before ends ih =>
    refine List.forall_mem_append.2 ⟨ih, List.forall_mem_singleton.2 ?_⟩
    rcases ends.2 with ⟨kind, -⟩ | ⟨kind, -⟩ <;> rw [kind] <;> exact nofun

/-- A dispatch that comes last is the one whose slice is open. -/
theorem since?_of_getLast? (h : Measured quantum events since?) {e : Event}
    (last : events.getLast? = some e) (kind : e.kind = .dispatched) : since? = some e := by
  cases h with
  | nil => cases last
  | start before kind' =>
    rw [List.getLast?_concat] at last
    rw [Option.some.inj last]
  | finish before ends =>
    rw [List.getLast?_concat] at last
    obtain rfl := Option.some.inj last
    rcases ends.2 with ⟨kind', -⟩ | ⟨kind', -⟩ <;> cases kind.symm.trans kind'

/-- The event after a dispatch ends its slice. -/
theorem endsSlice (h : Measured quantum events since?) {i : Nat} {e e' : Event}
    (found : events[i]? = some e) (next : events[i + 1]? = some e') (kind : e.kind = .dispatched) :
    e'.EndsSlice quantum e := by
  induction h with
  | nil => cases found
  | start before kind' ih =>
    rcases getElem?_concat_pair found next with ⟨found, next⟩ | ⟨last, rfl⟩
    · exact ih found next
    · exact absurd (before.since?_of_getLast? last kind) (by simp)
  | finish before ends ih =>
    rcases getElem?_concat_pair found next with ⟨found, next⟩ | ⟨last, rfl⟩
    · exact ih found next
    · exact Option.some.inj (before.since?_of_getLast? last kind) ▸ ends

end Measured

namespace Trace
variable {before after : Trace} {P : Event → Prop} {cpu : Nat} {pid : Int} {kind : Event.Kind}

theorem count_push (trace : Trace) (e : Event) (kind : Event.Kind) (pid : Int) :
    Trace.count (trace.push e) kind pid =
      trace.count kind pid + if e.kind = kind ∧ e.pid = pid then 1 else 0 := by
  rw [count, Array.countP_push, count]
  simp

theorem count_push_self (trace : Trace) (e : Event) :
    Trace.count (trace.push e) e.kind e.pid = trace.count e.kind e.pid + 1 := by
  rw [count_push, if_pos ⟨rfl, rfl⟩]

theorem count_push_of_ne (trace : Trace) {e : Event} (other : e.kind ≠ kind) (pid : Int) :
    Trace.count (trace.push e) kind pid = trace.count kind pid := by
  rw [count_push, if_neg fun same => other same.1, Nat.add_zero]

theorem Grows.onCpu_eq (grows : Grows P before after) (apart : ∀ e, P e → e.cpu ≠ cpu) :
    after.onCpu cpu = before.onCpu cpu := by
  obtain ⟨later, grown, own⟩ := grows
  have none_later : later.filter (fun e => e.cpu == cpu) = [] :=
    List.filter_eq_nil_iff.2 fun e member here => apart e (own e member) (eq_of_beq here)
  rw [onCpu, grown, List.filter_append, none_later, List.append_nil, onCpu]

theorem Grows.count_eq (grows : Grows P before after)
    (apart : ∀ e, P e → ¬(e.kind = kind ∧ e.pid = pid)) :
    after.count kind pid = before.count kind pid := by
  obtain ⟨later, grown, own⟩ := grows
  have none_later : later.countP (fun e => decide (e.kind = kind) && e.pid == pid) = 0 :=
    List.countP_eq_zero.2 fun e member => by simpa using apart e (own e member)
  rw [count, ← Array.countP_toList, grown, List.countP_append, none_later, Nat.add_zero, count,
    ← Array.countP_toList]

end Trace

/-! The record of a process. -/
namespace ProcessRecord

/-- A record, the numbers of its dispatches and expiries, and how much of its slice may be used up.
Each expiry ended a whole quantum. -/
inductive Portioned (quantum bound dispatches expiries : Nat) (p : ProcessRecord) : Prop
  | off (pending : p.status = .waiting ∨ p.status = .ready) (even : dispatches = expiries)
      (whole : expiries * quantum + p.remaining = p.burst) (left : 0 < p.remaining)
  | running {cpu : Nat} (running : p.status = .running cpu) (ahead : dispatches = expiries + 1)
      (whole : expiries * quantum + p.sliceUsed + p.remaining = p.burst) (left : 0 < p.remaining)
      (within : p.sliceUsed ≤ bound)
  | completed (done : p.status = .completed) (ahead : dispatches = expiries + 1)
      (whole : expiries * quantum + p.sliceUsed = p.burst) (worked : 0 < p.sliceUsed)
      (within : p.sliceUsed ≤ quantum)

theorem not_pending {p : ProcessRecord} {status : Status} (state : p.status = status)
    (moved : status ≠ .waiting) (off : status ≠ .ready) :
    ¬(p.status = .waiting ∨ p.status = .ready) := by
  rw [state]
  exact not_or.2 ⟨moved, off⟩

theorem sliceUsed_endSlice_lt {p : ProcessRecord} {quantum : Nat}
    (running : (p.endSlice quantum).isRunning = true) :
    (p.endSlice quantum).sliceUsed < quantum := by
  unfold endSlice at running ⊢
  split at running
  next unused => rwa [if_pos unused]
  next => cases running

theorem status_of_isRunning_work {p : ProcessRecord} {cpu now : Nat}
    (running : p.status = .running cpu) (runs : (p.work now).isRunning = true) :
    (p.work now).status = .running cpu := by
  obtain ⟨c, at_c⟩ := isRunning_iff.1 runs
  rw [status_work] at at_c ⊢
  split at at_c
  next => cases at_c
  next more => rw [if_neg more, running]

namespace Portioned
variable {quantum bound dispatches expiries cpu now : Nat} {p : ProcessRecord}
  (h : p.Portioned quantum bound dispatches expiries)
include h

theorem of_running (running : p.status = .running cpu) : dispatches = expiries + 1 ∧
    expiries * quantum + p.sliceUsed + p.remaining = p.burst ∧ 0 < p.remaining ∧
      p.sliceUsed ≤ bound := by
  cases h with
  | off pending even whole left => exact absurd pending (not_pending running nofun nofun)
  | running running' ahead whole left within => exact ⟨ahead, whole, left, within⟩
  | completed done ahead whole worked within => cases running.symm.trans done

theorem dispatch (pending : p.status = .waiting ∨ p.status = .ready) (cpu now : Nat) :
    (p.dispatch cpu now).Portioned quantum bound (dispatches + 1) expiries := by
  cases h with
  | off pending' even whole left => exact .running rfl (by rw [even]) whole left (Nat.zero_le _)
  | running running ahead whole left within =>
    exact absurd pending (not_pending running nofun nofun)
  | completed done ahead whole worked within => exact absurd pending (not_pending done nofun nofun)

theorem expire (running : p.status = .running cpu) (used : p.sliceUsed = quantum) :
    Portioned quantum bound dispatches (expiries + 1) { p with status := .ready } := by
  obtain ⟨ahead, whole, left, -⟩ := h.of_running running
  refine .off (.inr rfl) ahead ?_ left
  show (expiries + 1) * quantum + p.remaining = p.burst
  rw [Nat.succ_mul, ← used, ← whole, used]

theorem rebound {bound' : Nat} (within : p.isRunning = true → p.sliceUsed ≤ bound') :
    p.Portioned quantum bound' dispatches expiries := by
  cases h with
  | off pending even whole left => exact .off pending even whole left
  | running running ahead whole left _ =>
    exact .running running ahead whole left (within (isRunning_iff.2 ⟨_, running⟩))
  | completed done ahead whole worked within => exact .completed done ahead whole worked within

theorem enroll (algorithm : Algorithm) (now : Nat) :
    (p.enroll algorithm now).Portioned quantum bound dispatches expiries := by
  rcases p.enroll_cases algorithm now with same | ⟨waiting, -, ready⟩
  · rwa [same]
  · rw [ready]
    cases h with
    | off pending even whole left => exact .off (.inr rfl) even whole left
    | running running ahead whole left within => cases waiting.symm.trans running
    | completed done ahead whole worked within => cases waiting.symm.trans done

theorem ageWaiting (now : Nat) :
    (p.ageWaiting now).Portioned quantum bound dispatches expiries := by
  unfold ProcessRecord.ageWaiting
  split
  · cases h with
    | off pending even whole left => exact .off pending even whole left
    | running running ahead whole left within => exact .running running ahead whole left within
    | completed done ahead whole worked within => exact .completed done ahead whole worked within
  · exact h

theorem work (running : p.status = .running cpu) (room : bound < quantum) :
    (p.work now).Portioned quantum (bound + 1) dispatches expiries := by
  obtain ⟨ahead, whole, left, within⟩ := h.of_running running
  by_cases last : p.remaining ≤ 1
  · rw [work_of_last now last]
    refine .completed rfl ahead ?_ (Nat.succ_pos _) ?_
    · show expiries * quantum + (p.sliceUsed + 1) = p.burst
      omega
    · show p.sliceUsed + 1 ≤ quantum
      omega
  · rw [work_of_more now (Nat.lt_of_not_le last)]
    refine .running running ahead ?_ ?_ (Nat.succ_le_succ within)
    · show expiries * quantum + (p.sliceUsed + 1) + (p.remaining - 1) = p.burst
      omega
    · show 0 < p.remaining - 1
      omega

/-- A process that completes has been dispatched once for each quantum that its burst takes. -/
theorem counts_of_completed (done : p.status = .completed) :
    dispatches = (p.burst + quantum - 1) / quantum ∧
      expiries = (p.burst + quantum - 1) / quantum - 1 := by
  cases h with
  | off pending even whole left => exact absurd pending (not_pending done nofun nofun)
  | running running ahead whole left within => cases done.symm.trans running
  | completed done ahead whole worked within =>
    have slices : (p.burst + quantum - 1) / quantum = expiries + 1 := by
      refine Nat.div_eq_of_lt_le ?_ ?_ <;> simp only [Nat.succ_mul, ← whole] <;> omega
    omega

end Portioned
end ProcessRecord

end CpuScheduling
