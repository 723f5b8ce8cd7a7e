import CpuScheduling.Proofs.Least
import Mathlib.Data.List.Nodup
import Mathlib.Data.Prod.Lex
/-!
Choices by rank. A linear order on ranks, in which the place in the table comes last, says what a
scan is to choose: the one entry of the least rank. The scan for a waiting process goes by key, then
priority, then arrival, then place.
-/
namespace CpuScheduling.Selection

section Ranks
variable {α β : Type} [LinearOrder β] {rank : α → Nat → β} {beats : α → α → Bool}
  {qualifies : α → Bool} {entries : List α} {i : Nat} {a : α}

/-- Ranks that put the better entry first, and of two that tie the one at the smaller place. -/
def RanksBy (rank : α → Nat → β) (beats : α → α → Bool) : Prop :=
  ∀ a b i j, rank a i < rank b j ↔ beats a b = true ∨ beats b a = false ∧ i < j

namespace RanksBy

theorem beats_iff (ranks : RanksBy rank beats) (a b : α) :
    beats a b = true ↔ rank a 0 < rank b 0 := by
  rw [ranks]
  exact ⟨.inl, fun wins => wins.resolve_right fun tied => Nat.lt_irrefl 0 tied.2⟩

theorem strictWeak (ranks : RanksBy rank beats) : StrictWeak beats where
  asymm a b wins := by
    rw [ranks.beats_iff] at wins
    rw [← Bool.not_eq_true, ranks.beats_iff]
    exact lt_asymm wins
  split a b c wins := by
    rw [ranks.beats_iff] at wins
    rw [ranks.beats_iff, ranks.beats_iff]
    exact (lt_or_ge (rank a 0) (rank b 0)).imp_right fun back => back.trans_lt wins

/-- Where entries stand in the order of their places, a scan keeps the one of the least rank. -/
theorem best_eq_some_iff (ranks : RanksBy rank beats) {entries : List (α × Nat)}
    (ascending : entries.Pairwise fun x y => x.2 < y.2) :
    best (fun x y => beats x.1 y.1) entries = some (a, i) ↔
      (a, i) ∈ entries ∧ ∀ j b, (b, j) ∈ entries → j ≠ i → rank a i < rank b j := by
  have kept : ∀ {a i}, best (fun x y => beats x.1 y.1) entries = some (a, i) →
      (a, i) ∈ entries ∧ ∀ j b, (b, j) ∈ entries → j ≠ i → rank a i < rank b j := by
    intro a i chosen
    refine ⟨mem_of_best_eq_some chosen, fun j b member other => (ranks a b i j).2 ?_⟩
    -- An entry ahead has to be worse; one behind may tie.
    obtain ⟨loses, beaten⟩ := ranks.strictWeak.best_of_ascending ascending chosen member
    exact (Nat.lt_or_gt_of_ne other).imp beaten fun behind => ⟨loses, behind⟩
  refine ⟨kept, fun ⟨member, least⟩ => ?_⟩
  cases chosen : best (fun x y => beats x.1 y.1) entries with
  | none =>
    rw [best_eq_none_iff.1 chosen] at member
    cases member
  | some e =>
    obtain ⟨b, j⟩ := e
    obtain ⟨member', least'⟩ := kept chosen
    have same : j = i := by
      by_contra other
      exact lt_asymm (least j b member' other) (least' i a member (Ne.symm other))
    have places : (entries.map Prod.snd).Nodup :=
      List.pairwise_map.2 (ascending.imp fun lt => Nat.ne_of_lt lt)
    rw [List.inj_on_of_nodup_map places member' member same]

theorem bestIndex_eq_some_iff (ranks : RanksBy rank beats) :
    bestIndex qualifies beats entries = some i ↔ ∃ a, entries[i]? = some a ∧ qualifies a = true ∧
      ∀ j b, entries[j]? = some b → qualifies b = true → j ≠ i → rank a i < rank b j := by
  have ascending := (pairwise_zipIdx entries).filter fun e => qualifies e.1
  have chosen : bestIndex qualifies beats entries = some i ↔ ∃ a,
      best (fun x y => beats x.1 y.1) (entries.zipIdx.filter fun e => qualifies e.1) =
        some (a, i) := by
    simp [bestIndex]
  simp only [chosen, ranks.best_eq_some_iff ascending, List.mem_filter,
    List.mk_mem_zipIdx_iff_getElem?, and_imp, and_assoc]

end RanksBy
end Ranks

variable {key : ProcessRecord → Nat} {procs : List ProcessRecord} {now i : Nat} {p : ProcessRecord}

/-- A process stands at a place of the table, waiting, and has arrived. -/
def Awaits (procs : List ProcessRecord) (now i : Nat) (p : ProcessRecord) : Prop :=
  procs[i]? = some p ∧ p.status = .waiting ∧ p.arrival ≤ now

/-- By key, then from the greatest priority down, then by arrival, then by place. -/
def waitingRank (key : ProcessRecord → Nat) (p : ProcessRecord) (i : Nat) :
    Nat ×ₗ Intᵒᵈ ×ₗ Nat ×ₗ Nat :=
  toLex (key p, toLex (OrderDual.toDual p.priority, toLex (p.arrival, i)))

theorem waitingRank_lt_iff (p q : ProcessRecord) (i j : Nat) :
    waitingRank key p i < waitingRank key q j ↔ key p < key q ∨ key p = key q ∧
      (q.priority < p.priority ∨ p.priority = q.priority ∧
        (p.arrival < q.arrival ∨ p.arrival = q.arrival ∧ i < j)) := by
  simp only [waitingRank, Prod.Lex.toLex_lt_toLex, OrderDual.toDual_lt_toDual, OrderDual.toDual_inj]

theorem ranksBy_waitingRank (key : ProcessRecord → Nat) :
    RanksBy (waitingRank key) (precedes key) := by
  intro p q i j
  rw [waitingRank_lt_iff]
  simp only [precedes, breaksTie, ← Bool.not_eq_true, Bool.or_eq_true, Bool.and_eq_true,
    decide_eq_true_eq, beq_iff_eq]
  omega

theorem awaits_iff : Awaits procs now i p ↔
    procs[i]? = some p ∧ (decide (p.status = .waiting) && p.arrivedBy now) = true := by
  rw [Awaits, ProcessRecord.arrivedBy, Bool.and_eq_true, decide_eq_true_eq, decide_eq_true_eq]

/-- The scan finds nothing just where nobody waits, and otherwise the one place of the least rank
among those who do. -/
theorem bestWaiting?_least (key : ProcessRecord → Nat) (procs : List ProcessRecord) (now : Nat) :
    (bestWaiting? key procs now = none ↔ ∀ i p, ¬Awaits procs now i p) ∧
      ∀ i, bestWaiting? key procs now = some i ↔ ∃ p, Awaits procs now i p ∧
        ∀ j q, Awaits procs now j q → j ≠ i → waitingRank key p i < waitingRank key q j := by
  constructor
  · rw [bestWaiting?_eq_none_iff]
    constructor
    · rintro late i p ⟨found, waiting, arrived⟩
      exact Nat.not_lt_of_le arrived (late p (List.mem_of_getElem? found) waiting)
    · intro nobody p member waiting
      obtain ⟨i, found⟩ := List.mem_iff_getElem?.1 member
      exact Nat.lt_of_not_le fun arrived => nobody i p ⟨found, waiting, arrived⟩
  · intro i
    simp only [awaits_iff, and_imp, and_assoc]
    exact (ranksBy_waitingRank key).bestIndex_eq_some_iff

/-- Of those that have arrived two have the least burst and the greatest priority, and they arrived
together. -/
example : bestWaiting? (·.burst) (Job.toRecord <$>
    [⟨1, 0, 4, 9⟩, ⟨2, 2, 3, 1⟩, ⟨3, 1, 3, 2⟩, ⟨4, 1, 3, 2⟩, ⟨5, 3, 1, 0⟩]) 2 = some 2 := by
  decide

end CpuScheduling.Selection
