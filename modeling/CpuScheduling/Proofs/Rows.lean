import CpuScheduling.Proofs.Completion
import CpuScheduling.Proofs.Table
/-!
The rows of the timeline. Every tick adds one row, which shows the identifier of the process that
each processor holds when the work of the tick begins.
-/
namespace CpuScheduling

theorem mapM_eq {μ : Type → Type} [Monad μ] [LawfulMonad μ] {α β : Type} {f : α → μ β}
    {g : α → β} {l : List α} (each : ∀ a ∈ l, f a = pure (g a)) : l.mapM f = pure (l.map g) := by
  induction l with
  | nil => rfl
  | cons a l ih =>
    rw [List.mapM_cons, each a List.mem_cons_self, pure_bind,
      ih fun b member => each b (List.mem_cons_of_mem a member), pure_bind, List.map_cons]

namespace Timeline
variable {t : Timeline} {row : List Cell} {tick : Nat}

/-- A row written right after the last one is one more row. -/
theorem rows_write_length (full : row.length = t.width) :
    (t.write t.length row).rows = t.rows.push row := by
  have short : (blankRow t.width).length ≤ row.length := by rw [length_blankRow, full]
  rw [rows_write, ← t.size_rows, writeRows, dif_neg (Nat.lt_irrefl _), Nat.sub_self,
    Array.replicate_zero, Array.append_empty, overlay_of_le short,
    List.take_of_length_le (Nat.le_of_eq full)]

/-- What the rows show for a processor. -/
def onCpu (t : Timeline) (cpu : Nat) : List Cell := t.rows.toList.map fun row => row[cpu]?.join

/-- A column whose cells all lie in the buffer shows what stands at their places. -/
theorem column_of_fits {cpu : Nat}
    (fits : ∀ tick < t.length, tick * t.width + cpu < t.capacity * t.width) :
    t.column cpu = some
      ((List.range t.length).map fun tick => t.get (tick + cpu / t.width) (cpu % t.width)) := by
  refine mapM_eq fun tick member => ?_
  have place := fits tick (List.mem_range.1 member)
  have wide : 0 < t.width := Nat.pos_of_mul_pos_left (Nat.zero_lt_of_lt place)
  rw [getElem?_buffer, if_pos place, Nat.mul_comm tick, Nat.mul_add_div wide, Nat.mul_add_mod]
  rfl

/-- The column of a processor is in the buffer, and its cells are those of the processor. -/
theorem column_eq_map_get {cpu : Nat} (inside : cpu < t.width) :
    t.column cpu = some ((List.range t.length).map fun tick => t.get tick cpu) := by
  rw [column_of_fits, Nat.div_eq_of_lt inside, Nat.mod_eq_of_lt inside]
  · rfl
  · intro tick recorded
    have upto : tick + 1 ≤ t.capacity := Nat.le_trans recorded t.length_le
    have rows := Nat.mul_le_mul_right t.width upto
    rw [Nat.succ_mul] at rows
    omega

theorem column_eq {cpu : Nat} (inside : cpu < t.width) : t.column cpu = some (t.onCpu cpu) := by
  rw [column_eq_map_get inside, onCpu, rows, List.map_map]
  refine congrArg some (List.map_congr_left fun tick member => ?_)
  have recorded : t.row tick = some (t.slice tick) := if_pos (List.mem_range.1 member)
  rw [get_of_row_eq recorded]
  rfl

end Timeline

namespace Machine
variable {m m' : Machine} {cpu : Nat}

/-- The identifier of the process that a processor holds. -/
def running (m : Machine) (cpu : Nat) : Cell :=
  (m.held cpu).bind fun slot => m.jobs[slot]?.map (·.pid)

theorem running_eq (m : Machine) (cpu : Nat) :
    m.running cpu = (m.occupant? cpu).map fun e => e.2.pid := by
  unfold running occupant? held jobs
  cases m.cpus[cpu]?.bind (·.current) with
  | none => rfl
  | some slot =>
    simp only [Option.bind_some, List.getElem?_map, Option.map_map]
    rfl

theorem running_eq_none_of_le (outside : m.cpus.size ≤ cpu) : m.running cpu = none := by
  rw [running, held, Array.getElem?_eq_none outside]
  rfl

theorem occupancy_eq (m : Machine) :
    m.occupancy = (List.range m.cpus.size).map m.running := by
  refine List.ext_getElem? fun cpu => ?_
  rw [occupancy, List.getElem?_map, List.getElem?_map, Array.getElem?_toList]
  by_cases inside : cpu < m.cpus.size
  · rw [List.getElem?_range inside, Option.map_some, running_eq, occupant?,
      Array.getElem?_eq_getElem inside, Option.map_some, Option.bind_some]
    simp [Selection.occupant?, Option.map_bind, Function.comp_def]
  · rw [Array.getElem?_eq_none (Nat.le_of_not_lt inside),
      List.getElem?_eq_none (by simpa using inside)]
    rfl

theorem length_occupancy (m : Machine) : m.occupancy.length = m.cpus.size := by
  rw [occupancy, List.length_map, Array.length_toList]

theorem join_getElem?_occupancy (m : Machine) (cpu : Nat) :
    m.occupancy[cpu]?.join = m.running cpu := by
  rw [occupancy_eq, List.getElem?_map]
  by_cases inside : cpu < m.cpus.size
  · rw [List.getElem?_range inside]
    rfl
  · rw [running_eq_none_of_le (Nat.le_of_not_lt inside),
      List.getElem?_eq_none (by simpa using inside)]
    rfl

/-! One tick. -/

theorem Move.timeline_eq (h : Move m m') : m'.timeline = m.timeline := by
  cases h with
  | place => exact timeline_dispatch ..
  | displace => rfl
  | enqueue => exact timeline_sendToQueue ..
  | dequeue => rfl

theorem Moves.timeline_eq (h : Moves m m') : m'.timeline = m.timeline := h.keeps Move.timeline_eq

theorem timeline_workAt (m : Machine) (cpu : Nat) : (workAt cpu m).timeline = m.timeline := by
  unfold workAt
  split
  · rfl
  · dsimp only
    split <;> rfl

theorem AtRest.timeline_step (h : AtRest m) :
    m.step.timeline = m.timeline.write m.now m.occupied.occupancy := by
  have worked : m.step.timeline = m.shown.timeline :=
    atEachCpu_keeps fun cpu x => timeline_workAt x cpu
  have before : m.occupied.timeline = m.timeline := h.moves_occupied.timeline_eq
  rw [worked, shown, snapshot, h.now_occupied, before]

/-- A machine whose timeline has a full row for every tick so far. -/
structure Charted (m : Machine) : Prop where
  length : m.timeline.length = m.now
  width : m.timeline.width = m.cpus.size

theorem Charted.rows_step (c : Charted m) (h : AtRest m) :
    m.step.timeline.rows = m.timeline.rows.push m.occupied.occupancy := by
  rw [h.timeline_step, ← c.length]
  refine Timeline.rows_write_length ?_
  rw [length_occupancy, h.moves_occupied.size_cpus_eq, c.width]
  rfl

theorem Charted.step (c : Charted m) (h : AtRest m) : Charted m.step := by
  constructor
  · rw [← Timeline.size_rows, c.rows_step h, Array.size_push, Timeline.size_rows, c.length,
      h.now_step]
  · rw [h.timeline_step, h.size_cpus_step]
    exact c.width

/-! Runs. -/

theorem Charted.steps (c : Charted m) (h : AtRest m) (n : Nat) : Charted (m.steps n) := by
  induction n with
  | zero => exact c
  | succ n ih => rw [steps_succ]; exact ih.step (h.steps n)

/-- Every tick of a run has its row, and later ticks leave it alone. -/
theorem Charted.row_steps (c : Charted m) (h : AtRest m) {t n : Nat} (early : t < n) :
    (m.steps n).timeline.row (m.now + t) = some (m.steps t).occupied.occupancy := by
  induction n with
  | zero => exact absurd early (Nat.not_lt_zero t)
  | succ n ih =>
    have size : (m.steps n).timeline.rows.size = m.now + n := by
      rw [Timeline.size_rows, (c.steps h n).length, h.now_steps]
    rw [Timeline.row_eq, steps_succ, (c.steps h n).rows_step (h.steps n)]
    rcases Nat.lt_succ_iff_lt_or_eq.1 early with before | rfl
    · rw [Array.getElem?_push, if_neg (by omega), ← Timeline.row_eq]
      exact ih before
    · rw [← size, Array.getElem?_push_size]

theorem Charted.get_steps (c : Charted m) (h : AtRest m) {t n : Nat} (early : t < n) (cpu : Nat) :
    (m.steps n).timeline.get (m.now + t) cpu = (m.steps t).occupied.running cpu := by
  rw [Timeline.get_of_row_eq (c.row_steps h early), join_getElem?_occupancy]

/-- What has not been simulated shows nothing. -/
theorem Charted.get_of_le (c : Charted m) {tick : Nat} (late : m.now ≤ tick) (cpu : Nat) :
    m.timeline.get tick cpu = none :=
  Timeline.get_of_length_le (c.length.trans_le late) cpu

theorem charted_boot (s : Scenario) (policy : Policy) : Charted (boot s policy) :=
  ⟨rfl, Array.size_replicate.symm⟩

theorem charted_begun (d : Discipline) (s : Scenario) : Charted (begun d s) :=
  ⟨rfl, Array.size_replicate.symm⟩

end Machine
end CpuScheduling
