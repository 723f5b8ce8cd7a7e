import CpuScheduling.Proofs.Rows
import Mathlib.Algebra.Group.Nat.Defs
import Mathlib.Data.List.Induction
import Mathlib.Order.Bounds.Defs
/-!
Recording. After any writes, in whatever order of their ticks, the buffer of a timeline holds the
table that the same writes make of an empty one. So its row at a tick is that of the last write
there, rows between that nothing wrote are blank, and its capacity is the first doubling with room
for all rows.
-/
namespace CpuScheduling

/-! Capacities. -/

theorem exists_doubled_eq (tick n capacity : Nat) :
    ∃ k, doubled tick n capacity = capacity * 2 ^ k := by
  induction n generalizing capacity with
  | zero => exact ⟨0, (Nat.mul_one _).symm⟩
  | succ n ih =>
    unfold doubled
    split
    · exact ⟨0, (Nat.mul_one _).symm⟩
    · obtain ⟨k, grown⟩ := ih (2 * capacity)
      refine ⟨k + 1, ?_⟩
      rw [grown, Nat.pow_succ', Nat.mul_left_comm, Nat.mul_assoc]

/-- No doubling that has room for a tick is smaller. -/
theorem doubled_le {tick capacity k : Nat} (room : tick < capacity * 2 ^ k) (n : Nat) :
    doubled tick n capacity ≤ capacity * 2 ^ k := by
  induction n generalizing capacity k with
  | zero => exact Nat.le_mul_of_pos_right _ (Nat.two_pow_pos k)
  | succ n ih =>
    unfold doubled
    split
    · exact Nat.le_mul_of_pos_right _ (Nat.two_pow_pos k)
    next full =>
      cases k with
      | zero => exact absurd ((Nat.mul_one capacity).symm ▸ room) full
      | succ k =>
        have twice : capacity * 2 ^ (k + 1) = 2 * capacity * 2 ^ k := by
          rw [Nat.pow_succ', Nat.mul_left_comm, Nat.mul_assoc]
        rw [twice] at room ⊢
        exact ih room

theorem max?_concat (l : List Nat) (a : Nat) :
    (l ++ [a]).max? = some (l.max?.elim a (max · a)) := by
  cases l with
  | nil => rfl
  | cons b l =>
    rw [List.cons_append, List.max?_cons', List.foldl_append, List.max?_cons', Option.elim_some]
    rfl

namespace Timeline

variable {t : Timeline} {width initial tick : Nat} {row : List Cell}
  {writes : List (Nat × List Cell)}

/-- A timeline after some writes, each a row at a tick. -/
def writeAll (t : Timeline) (writes : List (Nat × List Cell)) : Timeline :=
  writes.foldl (fun t w => t.write w.1 w.2) t

/-- The row of the last of some writes at a tick. -/
def lastWritten (writes : List (Nat × List Cell)) (tick : Nat) : Option (List Cell) :=
  writes.reverse.lookup tick

/-- The capacities that doublings of a first one reach and that have room for some rows. -/
def capacities (first rows : Nat) : Set Nat := {c | (∃ k, c = first * 2 ^ k) ∧ rows ≤ c}

theorem lastWritten_concat (writes : List (Nat × List Cell)) (tick : Nat) (row : List Cell)
    (i : Nat) :
    lastWritten (writes ++ [(tick, row)]) i =
      if i = tick then some row else lastWritten writes i := by
  rw [lastWritten, List.reverse_append, List.reverse_singleton, List.singleton_append,
    List.lookup_cons]
  by_cases here : i = tick
  · rw [if_pos here, beq_iff_eq.2 here]
  · rw [if_neg here, beq_eq_false_iff_ne.2 here, lastWritten]

/-! Tables. -/

/-- The table that some writes make of an empty one. -/
def tableOf (width : Nat) (writes : List (Nat × List Cell)) : Array (List Cell) :=
  writes.foldl (fun rows w => writeRows width rows w.1 w.2) #[]

theorem tableOf_concat (writes : List (Nat × List Cell)) (tick : Nat) (row : List Cell) :
    tableOf width (writes ++ [(tick, row)]) = writeRows width (tableOf width writes) tick row :=
  List.foldl_concat ..

/-- The length of a timeline that shows some writes: up to the latest tick among them. -/
def extent (writes : List (Nat × List Cell)) : Nat := (writes.map (·.1)).max?.elim 0 (· + 1)

theorem extent_concat (writes : List (Nat × List Cell)) (tick : Nat) (row : List Cell) :
    extent (writes ++ [(tick, row)]) = max (extent writes) (tick + 1) := by
  rw [extent, extent, List.map_append, List.map_singleton, max?_concat]
  cases (writes.map (·.1)).max? with
  | none => exact (Nat.zero_max _).symm
  | some latest => exact (Nat.succ_max_succ latest tick).symm

theorem lastWritten_of_extent_le (late : extent writes ≤ tick) :
    lastWritten writes tick = none := by
  refine List.lookup_eq_none_iff.2 fun w member => bne_iff_ne.2 ?_
  rintro rfl
  have written : w.1 ∈ writes.map (·.1) := List.mem_map_of_mem (List.mem_reverse.1 member)
  rw [extent] at late
  cases latest : (writes.map (·.1)).max? with
  | none => exact List.not_mem_nil (List.max?_eq_none_iff.1 latest ▸ written)
  | some last =>
    rw [latest, Option.elim_some] at late
    exact Nat.not_lt_of_le ((List.max?_eq_some_iff.1 latest).2 w.1 written) late

theorem size_tableOf (width : Nat) (writes : List (Nat × List Cell)) :
    (tableOf width writes).size = extent writes := by
  induction writes using List.reverseRecOn with
  | nil => rfl
  | append_singleton writes w ih =>
    obtain ⟨tick, row⟩ := w
    rw [tableOf_concat, size_writeRows, ih, extent_concat]

/-- What is left of a last write is no longer than a row. -/
theorem length_elim_take_le (width : Nat) (row? : Option (List Cell)) :
    (row?.elim (blankRow width) (·.take width)).length ≤ width := by
  cases row? with
  | none => exact Nat.le_of_eq (length_blankRow width)
  | some row => exact List.length_take_le width row

/-- A table holds the row of the last write at each tick, and blank rows between. -/
theorem getElem?_tableOf (full : ∀ w ∈ writes, width ≤ w.2.length) (i : Nat) :
    (tableOf width writes)[i]? = if i < extent writes then
      some ((lastWritten writes i).elim (blankRow width) (·.take width)) else none := by
  induction writes using List.reverseRecOn with
  | nil => rfl
  | append_singleton writes w ih =>
    obtain ⟨tick, row⟩ := w
    obtain ⟨before, last⟩ := List.forall_mem_append.1 full
    have wide : width ≤ row.length := last (tick, row) List.mem_cons_self
    have old : (tableOf width writes)[i]?.getD (blankRow width) =
        (lastWritten writes i).elim (blankRow width) (·.take width) := by
      rw [ih before]
      split
      next => rfl
      next late =>
        -- a tick past the end was not written either
        rw [lastWritten_of_extent_le (Nat.le_of_not_lt late)]
        rfl
    have short := Nat.le_trans (length_elim_take_le width (lastWritten writes i)) wide
    rw [tableOf_concat, getElem?_writeRows, size_tableOf, old, extent_concat, lastWritten_concat]
    by_cases here : i = tick
    · rw [if_pos here, if_pos here, if_pos (by omega), overlay_of_le short, Option.elim_some]
    · rw [if_neg here, if_neg here]

/-! Timelines. -/

/-- The buffer holds the table of the same writes. -/
theorem rows_writeAll (t : Timeline) (writes : List (Nat × List Cell)) : (t.writeAll writes).rows =
    writes.foldl (fun rows w => writeRows t.width rows w.1 w.2) t.rows := by
  induction writes generalizing t with
  | nil => rfl
  | cons w writes ih =>
    rw [List.foldl_cons, ← rows_write]
    exact ih (t.write w.1 w.2)

theorem width_writeAll (t : Timeline) (writes : List (Nat × List Cell)) :
    (t.writeAll writes).width = t.width := by
  induction writes generalizing t with
  | nil => rfl
  | cons w writes ih => exact ih (t.write w.1 w.2)

/-- The capacity stays the least one with room when a write makes it grow. -/
theorem capacity_write {first : Nat} (least : IsLeast (capacities first t.length) t.capacity)
    (tick : Nat) (row : List Cell) :
    IsLeast (capacities first (t.write tick row).length) (t.write tick row).capacity := by
  obtain ⟨⟨⟨k, reached⟩, -⟩, below⟩ := least
  constructor
  · obtain ⟨i, grown⟩ := exists_doubled_eq tick (tick + 1) t.capacity
    refine ⟨⟨k + i, ?_⟩, (t.write tick row).length_le⟩
    show grownCapacity t.capacity tick = _
    rw [grownCapacity, grown, reached, Nat.pow_add, Nat.mul_assoc]
  · rintro c ⟨⟨j, rfl⟩, room⟩
    rw [length_write] at room
    have upto : t.capacity ≤ first * 2 ^ j := below ⟨⟨j, rfl⟩, by omega⟩
    rw [reached] at upto
    have some_room : 0 < first := by
      have := t.capacity_pos
      rw [reached] at this
      exact Nat.pos_of_mul_pos_right this
    have later : k ≤ j :=
      (Nat.pow_le_pow_iff_right Nat.one_lt_two).1 (Nat.le_of_mul_le_mul_left upto some_room)
    have doublings : first * 2 ^ j = t.capacity * 2 ^ (j - k) := by
      rw [reached, Nat.mul_assoc, ← Nat.pow_add, Nat.add_sub_of_le later]
    rw [doublings] at room ⊢
    exact doubled_le (by omega) _

theorem capacity_writeAll {first : Nat} (least : IsLeast (capacities first t.length) t.capacity)
    (writes : List (Nat × List Cell)) :
    IsLeast (capacities first (t.writeAll writes).length) (t.writeAll writes).capacity := by
  induction writes generalizing t with
  | nil => exact least
  | cons w writes ih => exact ih (capacity_write least w.1 w.2)

theorem capacity_empty (width initial : Nat) : IsLeast
    (capacities (max initial 1) (empty width initial).length) (empty width initial).capacity :=
  ⟨⟨⟨0, (Nat.mul_one _).symm⟩, Nat.zero_le _⟩,
    fun _ ⟨⟨k, reached⟩, _⟩ => reached ▸ Nat.le_mul_of_pos_right _ (Nat.two_pow_pos k)⟩

/-- After any writes of full rows a timeline is as long as the latest tick asks for; its row at a
tick is the last one written there, cut to the processors, or blank if none was; it reads the cells
of its rows, and nothing outside them; and its capacity is the first doubling with room for all. -/
theorem growing_table (width initial : Nat) (writes : List (Nat × List Cell))
    (full : ∀ w ∈ writes, width ≤ w.2.length) :
    let t := (empty width initial).writeAll writes
    t.length = (writes.map (·.1)).max?.elim 0 (· + 1) ∧
      (∀ tick, t.row tick = if tick < t.length then
        some ((lastWritten writes tick).elim (blankRow width) (·.take width)) else none) ∧
      (∀ tick row cpu, t.row tick = some row → t.get tick cpu = row[cpu]?.join) ∧
      (∀ tick cpu, width ≤ cpu ∨ t.length ≤ tick → t.get tick cpu = none) ∧
      IsLeast {c | (∃ k, c = max initial 1 * 2 ^ k) ∧ t.length ≤ c} t.capacity := by
  intro t
  have table : t.rows = tableOf width writes := rows_writeAll (empty width initial) writes
  have length : t.length = extent writes := by rw [← size_rows, table, size_tableOf]
  have wide : t.width = width := width_writeAll _ _
  refine ⟨length, fun tick => ?_, fun tick row cpu shown => get_of_row_eq shown cpu,
    fun tick cpu outside => ?_, capacity_writeAll (capacity_empty width initial) writes⟩
  · rw [row_eq, table, getElem?_tableOf full, length]
  · rcases outside with beyond | late
    · exact get_of_width_le (wide.trans_le beyond) tick
    · exact get_of_length_le late cpu

/-- Of two rows at the last tick the later one stands, the ticks before it are blank but for the one
that was written, and a buffer of one row has doubled twice. -/
theorem growing_table_rewritten :
    let writes := [(3, [some 1, some 2]), (0, [none, some 5, some 9]), (3, [some 4, none])]
    let t := (empty 2 1).writeAll writes
    (∀ w ∈ writes, 2 ≤ w.2.length) ∧ t.length = 4 ∧ t.row 3 = some [some 4, none] ∧
      t.row 2 = some [none, none] ∧ t.get 0 1 = some 5 ∧ t.get 0 2 = none ∧ t.capacity = 4 := by
  intro writes t
  have full : ∀ w ∈ writes, 2 ≤ w.2.length := by decide
  obtain ⟨length, row, reads, outside, least⟩ := growing_table 2 1 writes full
  have long : t.length = 4 := length
  have first : t.row 0 = some [none, some 5] := (row 0).trans (if_pos (long ▸ by decide))
  refine ⟨full, long, (row 3).trans (if_pos (long ▸ by decide)),
    (row 2).trans (if_pos (long ▸ by decide)), reads 0 _ 1 first, outside 0 2 (.inl (Nat.le_refl 2)),
    ?_⟩
  exact Nat.le_antisymm (least.2 ⟨⟨2, rfl⟩, Nat.le_of_eq long⟩) (long ▸ least.1.2)

/-! Two readers. -/

theorem mapM_eq_none {α β : Type} {f : α → Option β} {l : List α} {a : α} (member : a ∈ l)
    (fails : f a = none) : l.mapM f = none := by
  induction l with
  | nil => exact absurd member List.not_mem_nil
  | cons b l ih =>
    rw [List.mapM_cons]
    rcases List.mem_cons.1 member with rfl | later
    · rw [fails]
      rfl
    · rw [ih later]
      cases f b <;> rfl

/-- A column fails if one of its cells lies past the buffer. -/
theorem column_eq_none {cpu : Nat} (recorded : tick < t.length)
    (past : ¬tick * t.width + cpu < t.capacity * t.width) : t.column cpu = none :=
  mapM_eq_none (List.mem_range.2 recorded) ((t.getElem?_buffer _).trans (if_neg past))

/-- The column of a processor shows what the rows show for it. A place past the processors is in no
row; its column reads the buffer all the same, and so shows what other processors do in later ticks,
or fails when it leaves the buffer. -/
theorem column_counts_cells (width initial : Nat) (writes : List (Nat × List Cell)) (cpu : Nat) :
    let t := (empty width initial).writeAll writes
    (cpu < width → t.column cpu = some ((List.range t.length).map fun tick => t.get tick cpu)) ∧
      (width ≤ cpu → (∀ tick, t.get tick cpu = none) ∧ t.column cpu =
        if ∀ tick < t.length, tick * width + cpu < t.capacity * width then
          some ((List.range t.length).map fun tick => t.get (tick + cpu / width) (cpu % width))
        else none) := by
  intro t
  have wide : t.width = width := width_writeAll _ _
  refine ⟨fun inside => column_eq_map_get (wide ▸ inside), fun outside => ⟨?_, ?_⟩⟩
  · exact get_of_width_le (wide ▸ outside)
  · rw [← wide]
    split
    next fits => exact column_of_fits fits
    next leaves =>
      simp only [not_forall] at leaves
      obtain ⟨tick, recorded, past⟩ := leaves
      exact column_eq_none recorded past

/-- With one processor the column of a second one shows the first, a tick late. -/
theorem column_counts_cells_late :
    let t := (empty 1 4).writeAll [(0, [some 1]), (1, [some 2])]
    1 ≤ 1 ∧ t.get 0 1 = none ∧ t.column 1 = some [some 2, none] := by
  intro t
  obtain ⟨absent, column⟩ :=
    (column_counts_cells 1 4 [(0, [some 1]), (1, [some 2])] 1).2 (Nat.le_refl 1)
  exact ⟨Nat.le_refl 1, absent 0, column.trans (if_pos (by decide))⟩

/-- The two readers disagree about a place past the processors: where reading cell by cell finds
nothing, the column finds what a processor does in a later tick, or does not come to an end. -/
theorem readers_disagree_past_width :
    let writes := [(0, [some 1]), (1, [some 2])]
    (∀ w ∈ writes, 1 ≤ w.2.length) ∧
      (let t := (empty 1 4).writeAll writes
       t.column 1 = some [some 2, none] ∧
         (List.range t.length).map (fun tick => t.get tick 1) = [none, none]) ∧
      ((empty 1 2).writeAll writes).column 1 = none := by
  intro writes
  exact ⟨by decide, ⟨by decide +kernel, by decide +kernel⟩, by decide +kernel⟩

end Timeline
end CpuScheduling
