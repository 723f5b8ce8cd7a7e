import CpuScheduling.Units
/-!
The timeline: one row per tick and one cell per processor, each the identifier of the occupant or
nothing. Rows stand one after another in one buffer of `capacity` rows, which doubles when a tick
does not fit. Two readers look into it: `row`, and `get` through it, check their bounds; `column`
counts cells from the start of the buffer and checks only that it stays inside.
-/
namespace CpuScheduling

/-- The rows that a timeline has room for at first. -/
def defaultTimelineCapacity : Nat := 1000

/-- What one processor does in one tick. -/
abbrev Cell := Option Int

/-- A capacity doubled while `tick` does not fit, `n` times at most. -/
def doubled (tick : Nat) : Nat → Nat → Nat
  | 0, capacity => capacity
  | n + 1, capacity => if tick < capacity then capacity else doubled tick n (2 * capacity)

/-- The first of `capacity`, `2 * capacity`, `4 * capacity`, … that has room for row `tick`. -/
def grownCapacity (capacity tick : Nat) : Nat := doubled tick (tick + 1) capacity

theorem le_doubled (tick n capacity : Nat) : capacity ≤ doubled tick n capacity := by
  induction n generalizing capacity with
  | zero => exact Nat.le_refl _
  | succ n ih =>
    have := ih (2 * capacity)
    unfold doubled
    split <;> omega

theorem lt_doubled {tick n capacity : Nat} (h : 0 < capacity) (hn : tick < capacity + n) :
    tick < doubled tick n capacity := by
  induction n generalizing capacity with
  | zero => exact hn
  | succ n ih =>
    unfold doubled
    split
    · assumption
    · exact ih (by omega) (by omega)

theorem le_grownCapacity (capacity tick : Nat) : capacity ≤ grownCapacity capacity tick :=
  le_doubled _ _ _

theorem lt_grownCapacity {capacity : Nat} (tick : Nat) (h : 0 < capacity) :
    tick < grownCapacity capacity tick :=
  lt_doubled h (by omega)

/-! Cells in a buffer. -/

/-- A buffer with blank cells behind it, up to a size. -/
def extended (buffer : Array Cell) (size : Nat) : Array Cell :=
  buffer ++ Array.replicate (size - buffer.size) none

/-- A buffer with some cells in the place of its own, one after another from a place on. -/
def putCells (buffer : Array Cell) (first : Nat) : List Cell → Array Cell
  | [] => buffer
  | cell :: rest => putCells (buffer.setIfInBounds first cell) (first + 1) rest

theorem size_extended {buffer : Array Cell} {size : Nat} (larger : buffer.size ≤ size) :
    (extended buffer size).size = size := by
  rw [extended, Array.size_append, Array.size_replicate, Nat.add_sub_of_le larger]

/-- What is new is blank. -/
theorem join_getElem?_extended (buffer : Array Cell) (size place : Nat) :
    (extended buffer size)[place]?.join = buffer[place]?.join := by
  rw [extended, Array.getElem?_append]
  split
  next => rfl
  next behind =>
    rw [Array.getElem?_eq_none (Nat.le_of_not_lt behind), Array.getElem?_replicate]
    split <;> rfl

theorem size_putCells (buffer : Array Cell) (first : Nat) (cells : List Cell) :
    (putCells buffer first cells).size = buffer.size := by
  induction cells generalizing buffer first with
  | nil => rfl
  | cons cell rest ih => rw [putCells, ih, Array.size_setIfInBounds]

/-- All other places keep their cells. -/
theorem getElem?_putCells_of_outside {buffer : Array Cell} {first : Nat} {cells : List Cell}
    {place : Nat} (outside : place < first ∨ first + cells.length ≤ place) :
    (putCells buffer first cells)[place]? = buffer[place]? := by
  induction cells generalizing buffer first with
  | nil => rfl
  | cons cell rest ih =>
    rw [List.length_cons] at outside
    rw [putCells, ih (by omega), Array.getElem?_setIfInBounds_ne (by omega)]

theorem getElem?_putCells_of_inside {buffer : Array Cell} {first : Nat} {cells : List Cell}
    (fits : first + cells.length ≤ buffer.size) {n : Nat} (inside : n < cells.length) :
    (putCells buffer first cells)[first + n]? = cells[n]? := by
  induction cells generalizing buffer first n with
  | nil => exact absurd inside (Nat.not_lt_zero n)
  | cons cell rest ih =>
    rw [List.length_cons] at fits inside
    rw [putCells]
    cases n with
    | zero =>
      show (putCells _ (first + 1) rest)[first]? = some cell
      rw [getElem?_putCells_of_outside (.inl (Nat.lt_succ_self first)),
        Array.getElem?_setIfInBounds_self_of_lt (by omega)]
    | succ n =>
      have fits' : first + 1 + rest.length ≤ (buffer.setIfInBounds first cell).size := by
        rw [Array.size_setIfInBounds]
        omega
      rw [List.getElem?_cons_succ, ← ih fits' (Nat.lt_of_succ_lt_succ inside), Nat.add_assoc,
        Nat.add_comm 1]

structure Timeline where
  width : Nat
  buffer : Array Cell
  capacity : Nat
  /-- The number of recorded ticks, those in gaps included. -/
  length : Nat
  capacity_pos : 0 < capacity
  size_buffer : buffer.size = capacity * width
  length_le : length ≤ capacity
  blank_behind : ∀ place, length * width ≤ place → buffer[place]?.join = none

namespace Timeline

/-- No rows yet, and room for `capacity` of them, at least one. -/
def empty (width capacity : Nat) : Timeline where
  width
  buffer := Array.replicate (max capacity 1 * width) none
  capacity := max capacity 1
  length := 0
  capacity_pos := by omega
  size_buffer := Array.size_replicate
  length_le := Nat.zero_le _
  blank_behind := by
    intro place _
    rw [Array.getElem?_replicate]
    split <;> rfl

def isEmpty (t : Timeline) : Bool := t.length == 0

/-- Room for row `tick`: the rows keep their places, and blank cells follow. -/
def grow (t : Timeline) (tick : Nat) : Timeline where
  width := t.width
  buffer := extended t.buffer (grownCapacity t.capacity tick * t.width)
  capacity := grownCapacity t.capacity tick
  length := t.length
  capacity_pos := Nat.lt_of_lt_of_le t.capacity_pos (le_grownCapacity _ _)
  size_buffer := by
    refine size_extended ?_
    rw [t.size_buffer]
    exact Nat.mul_le_mul_right _ (le_grownCapacity _ _)
  length_le := Nat.le_trans t.length_le (le_grownCapacity _ _)
  blank_behind := by
    intro place behind
    rw [join_getElem?_extended, t.blank_behind place behind]

/-- The occupancy of every processor at `tick`. Cells past the width are dropped, and where the row
has no cell, that of the buffer stays. -/
def write (t : Timeline) (tick : Nat) (row : List Cell) : Timeline where
  width := t.width
  buffer := putCells (t.grow tick).buffer (tick * t.width) (row.take t.width)
  capacity := (t.grow tick).capacity
  length := max t.length (tick + 1)
  capacity_pos := (t.grow tick).capacity_pos
  size_buffer := by rw [size_putCells, (t.grow tick).size_buffer]; rfl
  length_le := Nat.max_le.2 ⟨(t.grow tick).length_le, lt_grownCapacity tick t.capacity_pos⟩
  blank_behind := by
    intro place behind
    have recorded := Nat.mul_le_mul_right t.width (Nat.le_max_left t.length (tick + 1))
    have written := Nat.mul_le_mul_right t.width (Nat.le_max_right t.length (tick + 1))
    rw [Nat.succ_mul] at written
    rw [getElem?_putCells_of_outside (.inr (by rw [List.length_take]; omega))]
    exact (t.grow tick).blank_behind place (Nat.le_trans recorded behind)

/-- The cells from the start of row `tick` on, as many as there are processors. -/
def slice (t : Timeline) (tick : Nat) : List Cell :=
  (t.buffer.extract (tick * t.width) (tick * t.width + t.width)).toList

/-- All processors at `tick`, if it is recorded. -/
def row (t : Timeline) (tick : Nat) : Option (List Cell) :=
  if tick < t.length then some (t.slice tick) else none

/-- The occupant of a processor at `tick`, if there is one. -/
def get (t : Timeline) (tick : Nat) (cpu : Nat) : Cell :=
  (t.row tick).bind fun row => row[cpu]?.join

/-- The last recorded row. -/
def lastRow (t : Timeline) : Option (List Cell) := t.row (t.length - 1)

/-- The cells that lie `cpu` places behind the start of each recorded row, if all of them are in the
buffer. -/
def column (t : Timeline) (cpu : Nat) : Option (List Cell) :=
  (List.range t.length).mapM fun tick => t.buffer[tick * t.width + cpu]?

end Timeline
end CpuScheduling
