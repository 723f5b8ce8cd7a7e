import CpuScheduling.Timeline
/-!
The buffer as a table. Readers see a timeline as an array of rows of equal length; a write lays its
row over the one at its tick, after blank rows up to it where there were none. That the buffer grows
and that rows lie in it behind one another does not show.
-/
namespace CpuScheduling.Timeline

variable {t t' : Timeline} {width tick : Nat} {row : List Cell}

/-! Tables. -/

/-- A row of idle cells. -/
def blankRow (width : Nat) : List Cell := List.replicate width none

/-- `row` laid over `old`: cells past the width are dropped, cells that `row` lacks stay. -/
def overlay (width : Nat) (row old : List Cell) : List Cell :=
  row.take width ++ old.drop row.length

/-- The rows with `row` at `tick`, after blank rows up to it where there were none. -/
def writeRows (width : Nat) (rows : Array (List Cell)) (tick : Nat) (row : List Cell) :
    Array (List Cell) :=
  if h : tick < rows.size then rows.set tick (overlay width row rows[tick])
  else
    (rows ++ Array.replicate (tick - rows.size) (blankRow width)).push
      (overlay width row (blankRow width))

theorem length_blankRow (width : Nat) : (blankRow width).length = width := List.length_replicate

theorem length_overlay {old : List Cell} (same : old.length = width) :
    (overlay width row old).length = width := by
  simp only [overlay, List.length_append, List.length_take, List.length_drop]
  omega

/-- A row hides all of a row that is no longer. -/
theorem overlay_of_le {old : List Cell} (short : old.length ≤ row.length) :
    overlay width row old = row.take width := by
  rw [overlay, List.drop_of_length_le short, List.append_nil]

theorem size_writeRows (rows : Array (List Cell)) :
    (writeRows width rows tick row).size = max rows.size (tick + 1) := by
  unfold writeRows
  split
  · rw [Array.size_set]
    omega
  · rw [Array.size_push, Array.size_append, Array.size_replicate]
    omega

theorem getElem?_writeRows (rows : Array (List Cell)) (i : Nat) :
    (writeRows width rows tick row)[i]? =
      if i = tick then some (overlay width row (rows[i]?.getD (blankRow width)))
      else if i < max rows.size (tick + 1) then some (rows[i]?.getD (blankRow width))
      else none := by
  unfold writeRows
  split
  next old =>
    rw [Array.getElem?_set]
    by_cases here : i = tick
    · rw [if_pos here.symm, if_pos here, here, Array.getElem?_eq_getElem old, Option.getD_some]
    · have size : max rows.size (tick + 1) = rows.size := Nat.max_eq_left old
      rw [if_neg (Ne.symm here), if_neg here, size]
      split
      next inside => rw [Array.getElem?_eq_getElem inside, Option.getD_some]
      next outside => exact Array.getElem?_eq_none (Nat.le_of_not_lt outside)
  next new =>
    have last : (rows ++ Array.replicate (tick - rows.size) (blankRow width)).size = tick := by
      rw [Array.size_append, Array.size_replicate]
      omega
    rw [Array.getElem?_push, last]
    by_cases here : i = tick
    · rw [if_pos here, if_pos here, here, Array.getElem?_eq_none (Nat.le_of_not_lt new),
        Option.getD_none]
    · rw [if_neg here, if_neg here, Array.getElem?_append]
      split
      next inside =>
        rw [if_pos (by omega), Array.getElem?_eq_getElem inside, Option.getD_some]
      next outside =>
        rw [Array.getElem?_eq_none (Nat.le_of_not_lt outside), Option.getD_none,
          Array.getElem?_replicate]
        congr 1
        exact propext (by omega)

/-! Places. -/

/-- Different rows share no place. -/
theorem apart_of_ne {i j cpu : Nat} (inside : cpu < width) (other : i ≠ j) :
    i * width + cpu < j * width ∨ j * width + width ≤ i * width + cpu := by
  rcases Nat.lt_or_gt_of_ne other with before | behind
  · have upto := Nat.mul_le_mul_right width before
    rw [Nat.succ_mul] at upto
    exact .inl (by omega)
  · have upto := Nat.mul_le_mul_right width behind
    rw [Nat.succ_mul] at upto
    exact .inr (by omega)

/-- A row for which there is room ends in the buffer. -/
theorem row_le_size (room : tick < t.capacity) : tick * t.width + t.width ≤ t.buffer.size := by
  rw [t.size_buffer, ← Nat.succ_mul]
  exact Nat.mul_le_mul_right _ room

/-- The buffer is blank in every row that is not recorded. -/
theorem blank_of_length_le (late : t.length ≤ tick) (cpu : Nat) :
    t.buffer[tick * t.width + cpu]?.join = none :=
  t.blank_behind _ (Nat.le_add_right_of_le (Nat.mul_le_mul_right t.width late))

theorem getElem?_slice (t : Timeline) (tick cpu : Nat) : (t.slice tick)[cpu]? =
    if cpu < t.width then t.buffer[tick * t.width + cpu]? else none := by
  rw [slice, Array.getElem?_toList, Array.getElem?_extract]
  by_cases inside : cpu < t.width
  · rw [if_pos inside]
    split
    next => rfl
    next => exact (Array.getElem?_eq_none (by omega)).symm
  · rw [if_neg inside, if_neg (by omega)]

theorem length_slice (room : tick < t.capacity) : (t.slice tick).length = t.width := by
  have whole := row_le_size room
  rw [slice, Array.length_toList, Array.size_extract]
  omega

/-- The cells of a row for which there is room, one by one. -/
theorem slice_eq (room : tick < t.capacity) : t.slice tick =
    (List.range t.width).map fun cpu => t.buffer[tick * t.width + cpu]?.join := by
  have whole := row_le_size room
  refine List.ext_getElem? fun cpu => ?_
  rw [getElem?_slice, List.getElem?_map]
  by_cases inside : cpu < t.width
  · have stored : tick * t.width + cpu < t.buffer.size := by omega
    rw [if_pos inside, List.getElem?_range inside, Option.map_some,
      Array.getElem?_eq_getElem stored, Option.join_some]
  · rw [if_neg inside, List.getElem?_eq_none (by simpa using inside)]
    rfl

/-! The rows of a timeline, and what the operations make of them. -/

/-- The recorded rows, one after another. -/
def rows (t : Timeline) : Array (List Cell) := ((List.range t.length).map t.slice).toArray

theorem size_rows (t : Timeline) : t.rows.size = t.length := by
  rw [rows, List.size_toArray, List.length_map, List.length_range]

/-- The reader of rows looks into the table. -/
theorem row_eq (t : Timeline) (tick : Nat) : t.row tick = t.rows[tick]? := by
  rw [row, rows, List.getElem?_toArray, List.getElem?_map]
  split
  next recorded => rw [List.getElem?_range recorded, Option.map_some]
  next absent => rw [List.getElem?_eq_none (by simpa using absent), Option.map_none]

theorem lt_length_of_row_eq (recorded : t.row tick = some row) : tick < t.length := by
  rw [row_eq] at recorded
  rw [← t.size_rows]
  exact (Array.getElem?_eq_some_iff.1 recorded).1

theorem length_of_row_eq (recorded : t.row tick = some row) : row.length = t.width := by
  have early := lt_length_of_row_eq recorded
  rw [Timeline.row, if_pos early] at recorded
  obtain rfl := Option.some.inj recorded
  exact length_slice (Nat.lt_of_lt_of_le early t.length_le)

@[simp] theorem width_empty (width capacity : Nat) : (empty width capacity).width = width := rfl

@[simp] theorem rows_empty (width capacity : Nat) : (empty width capacity).rows = #[] := rfl

/-- Growing adds nothing but room: behind the recorded rows there are blank ones. -/
theorem slice_grow (t : Timeline) (late : Nat) (room : tick < (t.grow late).capacity) :
    (t.grow late).slice tick = t.rows[tick]?.getD (blankRow t.width) := by
  have cells : (t.grow late).slice tick =
      (List.range t.width).map fun cpu => t.buffer[tick * t.width + cpu]?.join := by
    rw [slice_eq room]
    exact List.map_congr_left fun cpu _ => join_getElem?_extended _ _ _
  rw [cells, ← row_eq, Timeline.row]
  split
  next early => rw [Option.getD_some, slice_eq (Nat.lt_of_lt_of_le early t.length_le)]
  next new =>
    have blank : ∀ cpu ∈ List.range t.width, t.buffer[tick * t.width + cpu]?.join = none :=
      fun cpu _ => blank_of_length_le (Nat.le_of_not_lt new) cpu
    rw [Option.getD_none, List.map_congr_left blank, List.map_const', List.length_range, blankRow]

/-- The cells of a timeline after a write, each at its place. -/
theorem getElem?_slice_write (t : Timeline) (tick : Nat) (row : List Cell) (i cpu : Nat) :
    ((t.write tick row).slice i)[cpu]? =
      if cpu < t.width then
        (putCells (t.grow tick).buffer (tick * t.width) (row.take t.width))[i * t.width + cpu]?
      else none :=
  getElem?_slice ..

theorem slice_write_self (t : Timeline) (tick : Nat) (row : List Cell) :
    (t.write tick row).slice tick = overlay t.width row ((t.grow tick).slice tick) := by
  have room : tick < (t.grow tick).capacity := lt_grownCapacity tick t.capacity_pos
  have fits : tick * t.width + t.width ≤ (t.grow tick).buffer.size := row_le_size room
  have whole : ((t.grow tick).slice tick).length = t.width := length_slice room
  have given : (row.take t.width).length = min t.width row.length := List.length_take
  refine List.ext_getElem? fun cpu => ?_
  rw [getElem?_slice_write]
  by_cases inside : cpu < t.width
  · rw [if_pos inside, overlay]
    by_cases shown : cpu < (row.take t.width).length
    · rw [List.getElem?_append_left shown]
      exact getElem?_putCells_of_inside (by omega) shown
    · -- the row ends before this cell, so the old one stays
      have past : row.length + (cpu - (row.take t.width).length) = cpu := by omega
      rw [List.getElem?_append_right (Nat.le_of_not_lt shown), List.getElem?_drop, past,
        getElem?_slice, getElem?_putCells_of_outside (.inr (by omega))]
      exact (if_pos inside).symm
  · rw [if_neg inside, List.getElem?_eq_none]
    rw [length_overlay whole]
    exact Nat.le_of_not_lt inside

theorem slice_write_of_ne {i : Nat} (other : i ≠ tick) :
    (t.write tick row).slice i = (t.grow tick).slice i := by
  refine List.ext_getElem? fun cpu => ?_
  rw [getElem?_slice_write, getElem?_slice]
  refine ite_congr rfl (fun inside => ?_) fun _ => rfl
  have short : (row.take t.width).length ≤ t.width := List.length_take_le ..
  refine getElem?_putCells_of_outside ?_
  rcases apart_of_ne inside other with before | behind
  · exact .inl before
  · exact .inr (Nat.le_trans (Nat.add_le_add_left short _) behind)

/-- A write to the buffer is a write to the table. -/
theorem rows_write (t : Timeline) (tick : Nat) (row : List Cell) :
    (t.write tick row).rows = writeRows t.width t.rows tick row := by
  refine Array.ext_getElem? fun i => ?_
  have room : (t.write tick row).length ≤ (t.grow tick).capacity := (t.write tick row).length_le
  rw [getElem?_writeRows, size_rows, ← row_eq, Timeline.row]
  show (if i < max t.length (tick + 1) then _ else _) = _
  by_cases here : i = tick
  · subst here
    rw [if_pos rfl, if_pos (by omega), slice_write_self,
      slice_grow t i (lt_grownCapacity i t.capacity_pos)]
  · rw [if_neg here]
    refine ite_congr rfl (fun inside => ?_) fun _ => rfl
    rw [slice_write_of_ne here, slice_grow t tick (Nat.lt_of_lt_of_le inside room)]

theorem length_write (t : Timeline) (tick : Nat) (row : List Cell) :
    (t.write tick row).length = max t.length (tick + 1) := rfl

/-! Cells. -/

/-- The bounded reader finds what lies at the place of a processor's cell. -/
theorem get_eq (t : Timeline) (tick cpu : Nat) : t.get tick cpu =
    if cpu < t.width then t.buffer[tick * t.width + cpu]?.join else none := by
  rw [get, Timeline.row]
  split
  next recorded =>
    rw [Option.bind_some, getElem?_slice]
    split <;> rfl
  next absent =>
    rw [blank_of_length_le (Nat.le_of_not_lt absent)]
    exact (ite_self none).symm

/-- No row has a cell for a place that is no processor's. -/
theorem get_of_width_le {cpu : Nat} (outside : t.width ≤ cpu) (tick : Nat) :
    t.get tick cpu = none :=
  (t.get_eq tick cpu).trans (if_neg (Nat.not_lt_of_le outside))

/-- Nothing runs in a tick that is not recorded. -/
theorem get_of_length_le (late : t.length ≤ tick) (cpu : Nat) : t.get tick cpu = none := by
  have absent : t.row tick = none := if_neg (Nat.not_lt_of_le late)
  rw [get, absent, Option.bind_none]

theorem get_of_row_eq (recorded : t.row tick = some row) (cpu : Nat) :
    t.get tick cpu = row[cpu]?.join := by
  rw [get, recorded, Option.bind_some]

/-- Each place of the buffer is that of one cell. -/
theorem getElem?_buffer (t : Timeline) (place : Nat) : t.buffer[place]? =
    if place < t.capacity * t.width then some (t.get (place / t.width) (place % t.width))
    else none := by
  rw [← t.size_buffer]
  split
  next inside =>
    have wide : 0 < t.width := by
      rw [t.size_buffer] at inside
      exact Nat.pos_of_mul_pos_left (Nat.zero_lt_of_lt inside)
    rw [get_eq, if_pos (Nat.mod_lt place wide), Nat.div_add_mod', Array.getElem?_eq_getElem inside]
    rfl
  next outside => exact Array.getElem?_eq_none (Nat.le_of_not_lt outside)

/-- A timeline is its width, its capacity and its rows. -/
theorem ext_rows (width : t'.width = t.width) (capacity : t'.capacity = t.capacity)
    (rows : t'.rows = t.rows) : t' = t := by
  have length : t'.length = t.length := by rw [← size_rows, rows, size_rows]
  have buffer : t'.buffer = t.buffer := by
    refine Array.ext_getElem? fun place => ?_
    simp only [getElem?_buffer, get, row_eq, width, capacity, rows]
  cases t
  cases t'
  cases width
  cases capacity
  cases length
  cases buffer
  rfl

end CpuScheduling.Timeline
