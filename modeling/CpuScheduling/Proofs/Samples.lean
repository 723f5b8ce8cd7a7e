import CpuScheduling.Statistics
import Mathlib.Algebra.BigOperators.Group.List.Basic
import Mathlib.Algebra.GroupWithZero.Nat
import Mathlib.Order.Bounds.Basic
/-!
Metrics and their samples. A metric tells how many samples it was given, what they come to as far
as the clock can count it, and the least and the greatest of them. It does not tell their order, so
that the same samples may be added in any order, and in parts.
-/
namespace CpuScheduling.Metric
variable {m m' : Metric} {values values' : List Nat} {range range' : Option (Nat × Nat)}

/-- The range of some values: the least and the greatest, or nothing if there are no values. -/
inductive Spans : Option (Nat × Nat) → List Nat → Prop
  | empty : Spans none []
  | bounds {least greatest : Nat} {values : List Nat} (is_least : IsLeast {v | v ∈ values} least)
      (is_greatest : IsGreatest {v | v ∈ values} greatest) : Spans (some (least, greatest)) values

/-- What a metric tells of its samples. -/
structure Summarizes (m : Metric) (values : List Nat) : Prop where
  count : m.count = values.length
  total : m.total = min values.sum lastTick
  range : Spans m.range values

namespace Spans

theorem add (spans : Spans m.range values) (value : Nat) :
    Spans (m.add value).range (values ++ [value]) := by
  have more : {v | v ∈ values ++ [value]} = insert value {v | v ∈ values} := by
    ext v
    simp [or_comm]
  unfold Metric.add
  cases range : m.range with
  | none =>
    rw [range] at spans
    cases spans
    exact .bounds (by simp [IsLeast]) (by simp [IsGreatest])
  | some bounds =>
    rw [range] at spans
    cases spans with
    | bounds is_least is_greatest =>
      refine .bounds ?_ ?_
      · rw [more, min_comm]
        exact is_least.insert value
      · rw [more, max_comm]
        exact is_greatest.insert value

theorem perm (spans : Spans range values) (perm : values.Perm values') :
    Spans range values' := by
  have same : {v | v ∈ values} = {v | v ∈ values'} := Set.ext fun _ => perm.mem_iff
  cases spans with
  | empty =>
    rw [← perm.nil_eq]
    exact .empty
  | bounds is_least is_greatest => exact .bounds (same ▸ is_least) (same ▸ is_greatest)

theorem unique (spans : Spans range values) (spans' : Spans range' values) : range = range' := by
  cases spans with
  | empty =>
    cases spans' with
    | empty => rfl
    | bounds is_least => exact absurd is_least.1 List.not_mem_nil
  | bounds is_least is_greatest =>
    cases spans' with
    | empty => exact absurd is_least.1 List.not_mem_nil
    | bounds is_least' is_greatest' =>
      rw [is_least.unique is_least', is_greatest.unique is_greatest']

end Spans

theorem summarizes_empty : Summarizes {} [] := ⟨rfl, rfl, .empty⟩

namespace Summarizes

theorem add (summarizes : m.Summarizes values) (value : Nat) :
    (m.add value).Summarizes (values ++ [value]) where
  count := by rw [Metric.add, summarizes.count, List.length_append, List.length_singleton]
  total := by
    -- A total that has come to the end of the clock stays there, as the sum is still past it.
    have added : (m.add value).total = min (m.total + value) lastTick := rfl
    rw [added, summarizes.total, List.sum_append, List.sum_singleton]
    omega
  range := summarizes.range.add value

theorem extend (summarizes : m.Summarizes values) (more : List Nat) :
    (m.extend more).Summarizes (values ++ more) := by
  induction more generalizing m values with
  | nil =>
    rw [List.append_nil]
    exact summarizes
  | cons value more ih =>
    rw [List.append_cons]
    exact ih (summarizes.add value)

theorem perm (summarizes : m.Summarizes values) (perm : values.Perm values') :
    m.Summarizes values' where
  count := summarizes.count.trans perm.length_eq
  total := by rw [summarizes.total, perm.sum_eq]
  range := summarizes.range.perm perm

/-- Nothing else is in a metric than what it tells of its samples. -/
theorem unique (summarizes : m.Summarizes values) (summarizes' : m'.Summarizes values) :
    m = m' := by
  have count := summarizes.count.trans summarizes'.count.symm
  have total := summarizes.total.trans summarizes'.total.symm
  have range := summarizes.range.unique summarizes'.range
  cases m
  cases m'
  cases count
  cases total
  cases range
  rfl

end Summarizes

theorem summarizes_ofList (values : List Nat) : (ofList values).Summarizes values :=
  summarizes_empty.extend values

theorem count_ofList (values : List Nat) : (ofList values).count = values.length :=
  (summarizes_ofList values).count

/-- A total is the sum of its samples as far as the clock can count it. -/
theorem total_ofList (values : List Nat) : (ofList values).total = min values.sum lastTick :=
  (summarizes_ofList values).total

/-- A metric of a list is its summary, whatever the order of the list, and samples that are added
later are summarized with those before. -/
theorem ofList_in_any_order (values : List Nat) :
    (ofList values).Summarizes values ∧
      (∀ values', values.Perm values' → ofList values' = ofList values) ∧
      ∀ more, (ofList values).extend more = ofList (values ++ more) := by
  have summarizes := summarizes_ofList values
  refine ⟨summarizes, fun values' perm => ?_, fun more => (extend_append {} values more).symm⟩
  exact (summarizes_ofList values').unique (summarizes.perm perm)

/-- One order is past the end of the clock with the second sample, the other with the last alone. -/
theorem ofList_in_any_order_saturated :
    let values := [lastTick, 7, 3]
    let values' := [3, 7, lastTick]
    values.Perm values' ∧ ofList values' = ofList values ∧
      (ofList values).total = lastTick ∧ (ofList values').range = some (3, lastTick) ∧
      (ofList [lastTick, 7]).extend [3] = ofList values := by
  intro values values'
  have perm : values.Perm values' := by decide
  obtain ⟨summarizes, alike, -⟩ := ofList_in_any_order values
  obtain ⟨-, -, extended⟩ := ofList_in_any_order [lastTick, 7]
  exact ⟨perm, alike values' perm, summarizes.total, by decide, extended [3]⟩

end CpuScheduling.Metric
