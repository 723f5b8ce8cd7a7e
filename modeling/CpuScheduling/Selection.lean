import CpuScheduling.Cpu
import CpuScheduling.ProcessRecord
/-!
Choosing among processes. Every choice is one scan in ascending order whose kept element gives way
only to a strictly better one, so what ties completely stays with the smaller place.
-/
namespace CpuScheduling.Selection

/-- What is kept after one more element; only a strict improvement replaces. -/
def prefer {α : Type} (beats : α → α → Bool) (kept : Option α) (entry : α) : Option α :=
  match kept with
  | none => some entry
  | some b => if beats entry b then some entry else some b

/-- The element that is kept after all. -/
def best {α : Type} (beats : α → α → Bool) (entries : List α) : Option α :=
  entries.foldl (prefer beats) none

theorem mem_of_foldl_prefer {α : Type} {beats : α → α → Bool} {entries : List α}
    {kept : Option α} {a : α} (h : entries.foldl (prefer beats) kept = some a) :
    kept = some a ∨ a ∈ entries := by
  induction entries generalizing kept with
  | nil => exact .inl h
  | cons entry entries ih =>
    rcases ih h with h | h
    · unfold prefer at h
      split at h
      · exact .inr (Option.some.inj h ▸ List.mem_cons_self)
      · split at h
        · exact .inr (Option.some.inj h ▸ List.mem_cons_self)
        · exact .inl h
    · exact .inr (List.mem_cons_of_mem _ h)

theorem mem_of_best_eq_some {α : Type} {beats : α → α → Bool} {entries : List α} {a : α}
    (h : best beats entries = some a) : a ∈ entries :=
  (mem_of_foldl_prefer h).resolve_left nofun

theorem isSome_prefer {α : Type} (beats : α → α → Bool) (kept : Option α) (entry : α) :
    (prefer beats kept entry).isSome := by
  unfold prefer
  split
  · rfl
  · split <;> rfl

theorem isSome_foldl_prefer {α : Type} {beats : α → α → Bool} {entries : List α}
    {kept : Option α} (h : kept.isSome) : (entries.foldl (prefer beats) kept).isSome := by
  induction entries generalizing kept with
  | nil => exact h
  | cons entry entries ih => exact ih (isSome_prefer beats kept entry)

theorem best_eq_none_iff {α : Type} {beats : α → α → Bool} {entries : List α} :
    best beats entries = none ↔ entries = [] := by
  cases entries with
  | nil => exact ⟨fun _ => rfl, fun _ => rfl⟩
  | cons entry entries =>
    refine ⟨fun h => ?_, nofun⟩
    have kept : (entries.foldl (prefer beats) (prefer beats none entry)).isSome :=
      isSome_foldl_prefer (isSome_prefer beats none entry)
    rw [best, List.foldl_cons] at h
    rw [h] at kept
    cases kept

/-- The place of the best element among those that qualify. -/
def bestIndex {α : Type} (qualifies : α → Bool) (beats : α → α → Bool) (entries : List α) :
    Option Nat :=
  (best (fun a b => beats a.1 b.1) (entries.zipIdx.filter fun e => qualifies e.1)).map (·.2)

/-- Between equal keys: greater priority, then earlier arrival. -/
def breaksTie (a b : ProcessRecord) : Bool :=
  decide (b.priority < a.priority) || (a.priority == b.priority && decide (a.arrival < b.arrival))

/-- Smaller key, then the tie rule. -/
def precedes (key : ProcessRecord → Nat) (a b : ProcessRecord) : Bool :=
  decide (key a < key b) || (key a == key b && breaksTie a b)

/-- The arrived process in status waiting that is best by `key`. -/
def bestWaiting? (key : ProcessRecord → Nat) (procs : List ProcessRecord) (now : Nat) :
    Option Nat :=
  bestIndex (fun p => decide (p.status = .waiting) && p.arrivedBy now) (precedes key) procs

/-- Less work left, then greater priority. -/
def isShorter (a b : ProcessRecord) : Bool :=
  decide (a.remaining < b.remaining) ||
    (a.remaining == b.remaining && decide (b.priority < a.priority))

/-- The arrived process in status ready that would preempt first. -/
def challenger? (procs : List ProcessRecord) (now : Nat) : Option Nat :=
  bestIndex (fun p => decide (p.status = .ready) && p.arrivedBy now) isShorter procs

/-- The record of the process that a processor holds. -/
def occupant? (procs : List ProcessRecord) (c : Cpu) : Option ProcessRecord :=
  c.current.bind fun slot => procs[slot]?

/-- The processors whose occupants have more than `remaining` ticks left, with those occupants. -/
def victims (cpus : List Cpu) (procs : List ProcessRecord) (remaining : Nat) :
    List (ProcessRecord × Nat) :=
  cpus.zipIdx.filterMap fun (c, cpu) =>
    (occupant? procs c).bind fun p => if remaining < p.remaining then some (p, cpu) else none

/-- Less priority. -/
def yieldsBefore (a b : ProcessRecord × Nat) : Bool := decide (a.1.priority < b.1.priority)

/-- Where the process in a slot may run: the first idle processor, which takes any slot, else the
one of the victim of least priority. -/
def placeFor? (cpus : List Cpu) (procs : List ProcessRecord) (slot : Nat) : Option Nat :=
  match cpus.findIdx? (·.isIdle) with
  | some cpu => some cpu
  | none => do
    let p ← procs[slot]?
    let victim ← best yieldsBefore (victims cpus procs p.remaining)
    pure victim.2

end CpuScheduling.Selection
