import CpuScheduling.Proofs.Characters
import CpuScheduling.Proofs.Recording
/-!
Drawn timelines. A drawing is a key and then, window by window, lines of which each begins with its
name; so two drawings under one key are equal just if the timelines are equally long and in every
window the cells of every processor make the same text. Whether the cells are then the same depends
on how they are drawn: without colour a cell of at most five characters fills its five columns
exactly, and a wider one runs into the next.
-/
namespace CpuScheduling.Report
open Text (Lacks Numeric)

variable {color : Bool} {t u : Timeline} {pids : List Int} {first tick cpu : Nat} {ticks : List Nat}

/-- The cells of a processor in some ticks. -/
def cells (color : Bool) (t : Timeline) (ticks : List Nat) (cpu : Nat) : String :=
  String.join (ticks.map fun tick => cell color (t.get tick cpu))

theorem toList_cells (color : Bool) (t : Timeline) (ticks : List Nat) (cpu : Nat) :
    (cells color t ticks cpu).toList =
      ticks.flatMap fun tick => (cell color (t.get tick cpu)).toList := by
  rw [cells, String.toList_join, List.flatMap_map]

theorem cells_congr (same : ∀ tick ∈ ticks, t.get tick cpu = u.get tick cpu) :
    cells color t ticks cpu = cells color u ticks cpu :=
  congrArg String.join <|
    List.map_congr_left fun tick member => congrArg (cell color) (same tick member)

/-- The line above a window: its first and its last tick. -/
def headLine (first count : Nat) : String :=
  "Time " ++ first.repr ++ " to " ++ (first + count - 1).repr ++ ":"

/-- The line of the ticks of a window. -/
def ruler (ticks : List Nat) : String :=
  "Time: " ++ String.join (ticks.map fun tick => Text.padRight tickWidth tick.repr)

/-- What stands before the cells of a processor. -/
def cpuName (cpu : Nat) : String := "CPU" ++ Text.padRight 2 cpu.repr ++ " "

/-- The lines of a window; the first one is empty. -/
def windowLines (color : Bool) (t : Timeline) (first : Nat) : List String :=
  let ticks := windowRange t.length first
  "" :: headLine first ticks.length :: ruler ticks ::
    (List.range t.width).map fun cpu => cpuName cpu ++ cells color t ticks cpu

theorem window_eq (color : Bool) (t : Timeline) (first : Nat) :
    window color t first = Text.unlines (windowLines color t first) := by
  rw [← String.toList_inj]
  simp [window, windowLines, headLine, ruler, rulerLine, cpuLine, cpuName, cells, Text.unlines,
    String.toList_join, Function.comp_def, List.flatMap_map]

/-- The head of a drawing: its titles and its key. -/
def keyText (color : Bool) (pids : List Int) : String :=
  "\nExecution Timeline:\n\nColor Key:\n" ++ key color pids ++ "\n"

theorem timeline_eq (color : Bool) (pids : List Int) (t : Timeline) :
    timeline color pids t = keyText color pids ++
      Text.unlines ((windowStarts t.length).flatMap (windowLines color t)) := by
  have windows : window color t = fun first => Text.unlines (windowLines color t first) :=
    funext (window_eq color t)
  unfold timeline keyText
  rw [windows, Text.join_map_unlines]

theorem length_windowLines (color : Bool) (t : Timeline) (first : Nat) :
    (windowLines color t first).length = t.width + 3 := by
  simp [windowLines]

/-! Windows: which there are, and which ticks they show. -/

theorem windowTicks_eq : windowTicks = 15 := rfl

theorem tickWidth_eq : tickWidth = 5 := rfl

theorem mem_windowStarts {total : Nat} :
    first ∈ windowStarts total ↔ first % windowTicks = 0 ∧ first < total := by
  simp only [windowStarts, List.mem_map, List.mem_range, windowTicks_eq]
  constructor
  · rintro ⟨i, early, place⟩
    omega
  · rintro ⟨whole, early⟩
    exact ⟨first / 15, by omega, by omega⟩

theorem mem_windowRange {total : Nat} :
    tick ∈ windowRange total first ↔
      first ≤ tick ∧ tick < first + windowTicks ∧ tick < total := by
  rw [windowRange, List.mem_range'_1]
  omega

/-- Every recorded tick is in a window. -/
theorem exists_window {total : Nat} (recorded : tick < total) :
    ∃ first ∈ windowStarts total, tick ∈ windowRange total first := by
  have part := Nat.mod_add_div tick windowTicks
  have early : tick % windowTicks < windowTicks := Nat.mod_lt _ (by decide)
  exact ⟨windowTicks * (tick / windowTicks),
    mem_windowStarts.2 ⟨Nat.mul_mod_right _ _, by omega⟩, mem_windowRange.2 (by omega)⟩

/-! No line of a window is broken. -/

section Lacks
variable {c : Char} (foreign : Text.isNumeric c = false) (codes : color = true → Lacks c "\x1b[m")
include foreign codes

theorem lacks_tint {text : String} (lacks : Lacks c text) (pid : Int) :
    Lacks c (tint color pid text) := by
  unfold tint
  split
  next colored =>
    have apart := codes colored
    have begins : Lacks c (colorOf pid) := by
      have shade := (Text.numeric_repr (31 + (pid % 7).toNat)).lacks foreign
      simp_all [Lacks, colorOf]
    have ends : Lacks c colorEnd := by
      have zero : c ≠ '0' := by
        rintro rfl
        cases foreign
      simp_all [Lacks, colorEnd]
    exact (begins.append lacks).append ends
  next => exact lacks

variable (solid : c ≠ ' ')
include solid

theorem lacks_cell (content : Cell) : Lacks c (cell color content) := by
  cases content with
  | none =>
    have dot : Text.Numeric "." := by decide
    exact (dot.lacks foreign).padRight solid tickWidth
  | some pid =>
    exact lacks_tint foreign codes (((Text.numeric_intRepr pid).lacks foreign).padRight solid _) pid

theorem lacks_cells (t : Timeline) (ticks : List Nat) (cpu : Nat) :
    Lacks c (cells color t ticks cpu) := by
  refine Text.lacks_join fun text member => ?_
  obtain ⟨tick, -, rfl⟩ := List.mem_map.1 member
  exact lacks_cell foreign codes solid _

variable (names : Lacks c "Time to: CPU")
include names

omit codes in
/-- Lines hold numbers, spaces and what their names are made of. -/
theorem lacks_line_parts :
    (∀ first count, Lacks c (headLine first count)) ∧ (∀ ticks, Lacks c (ruler ticks)) ∧
      ∀ cpu, Lacks c (cpuName cpu) := by
  have number : ∀ n : Nat, Lacks c n.repr := fun n => (Text.numeric_repr n).lacks foreign
  have literal : ∀ text : String, text.toList ⊆ "Time to: CPU".toList → Lacks c text :=
    fun text inside member => names (inside member)
  refine ⟨fun first count => ?_, fun ticks => ?_, fun cpu => ?_⟩
  · refine .append (.append (.append (.append ?_ (number _)) ?_) (number _)) ?_
    all_goals exact literal _ (by decide)
  · refine .append (literal _ (by decide)) (Text.lacks_join fun text member => ?_)
    obtain ⟨tick, -, rfl⟩ := List.mem_map.1 member
    exact (number tick).padRight solid tickWidth
  · refine .append (.append ?_ ((number cpu).padRight solid 2)) ?_
    all_goals exact literal _ (by decide)

theorem lacks_windowLines : ∀ line ∈ windowLines color t first, Lacks c line := by
  obtain ⟨head, ruler, name⟩ := lacks_line_parts foreign solid names
  simp only [windowLines, List.forall_mem_cons]
  refine ⟨List.not_mem_nil, head _ _, ruler _, fun line member => ?_⟩
  obtain ⟨cpu, -, rfl⟩ := List.mem_map.1 member
  exact (name cpu).append (lacks_cells foreign codes solid t _ cpu)

end Lacks

/-! What two equal drawings agree on. -/

/-- Blocks of one length can be told apart when they are put one behind the other. -/
theorem map_eq_of_flatMap_eq {α β : Type} {f g : α → List β} {l l' : List α} {k : Nat}
    (some_line : 0 < k) (lines : ∀ a, (f a).length = k) (lines' : ∀ a, (g a).length = k)
    (same : l.flatMap f = l'.flatMap g) : l.map f = l'.map g := by
  have total : l.length * k = l'.length * k := by
    simpa [List.length_flatMap, lines, lines'] using congrArg List.length same
  have count : l.length = l'.length := Nat.eq_of_mul_eq_mul_right some_line total
  refine List.eq_iff_flatten_eq.2 ⟨same, ?_⟩
  simp [Function.comp_def, lines, lines', count]

theorem headLine_inj {count count' : Nat} (some_tick : 0 < count) (some_tick' : 0 < count') :
    headLine first count = headLine first count' ↔ count = count' := by
  refine ⟨fun same => ?_, congrArg _⟩
  simp only [headLine, String.append_assoc, String.append_right_inj, String.append_left_inj,
    Text.repr_inj] at same
  omega

theorem length_windowRange (total first : Nat) :
    (windowRange total first).length = min windowTicks (total - first) := List.length_range'

/-- Windows that begin alike at all places have drawn the same number of ticks. -/
theorem length_eq_of_windowLines (starts : windowStarts t.length = windowStarts u.length)
    (same : ∀ first ∈ windowStarts t.length,
      windowLines color t first = windowLines color u first) :
    t.length = u.length := by
  have begins : ∀ total, 0 < total → (total - 1) / windowTicks * windowTicks ∈
      windowStarts total := by
    intro total some_tick
    rw [mem_windowStarts, windowTicks_eq]
    omega
  rcases Nat.eq_zero_or_pos t.length with blank | some_tick
  · by_contra differ
    have member := begins u.length (by omega)
    rw [← starts] at member
    have inside := (mem_windowStarts.1 member).2
    omega
  · have member := begins t.length some_tick
    have heads := (List.cons.inj (List.cons.inj (same _ member)).2).1
    have inside := mem_windowStarts.1 (starts ▸ member)
    have last := mem_windowStarts.1 (starts ▸ begins u.length (by omega))
    rw [windowTicks_eq] at inside last
    rw [length_windowRange, length_windowRange, windowTicks_eq,
      headLine_inj (by omega) (by omega)] at heads
    omega

theorem length_windowStarts (total : Nat) :
    (windowStarts total).length = (total + windowTicks - 1) / windowTicks := by
  rw [windowStarts, List.length_map, List.length_range]

/-- The drawings of timelines of equally many processors under one key are equal just if the
timelines are equally long and in every window the cells of every processor read alike. -/
theorem timeline_eq_iff (wide : t.width = u.width) :
    timeline color pids t = timeline color pids u ↔
      t.length = u.length ∧ ∀ first ∈ windowStarts t.length, ∀ cpu < t.width,
        cells color t (windowRange t.length first) cpu =
          cells color u (windowRange t.length first) cpu := by
  have unbroken : ∀ (t : Timeline), ∀ line ∈ (windowStarts t.length).flatMap (windowLines color t),
      Lacks '\n' line := by
    intro t line member
    obtain ⟨first, -, inside⟩ := List.mem_flatMap.1 member
    exact lacks_windowLines (by decide) (fun _ => by decide) (by decide) (by decide) line inside
  rw [timeline_eq, timeline_eq, String.append_right_inj, Text.unlines_inj (unbroken t) (unbroken u)]
  constructor
  · intro same
    have windows := map_eq_of_flatMap_eq (Nat.succ_pos _) (length_windowLines color t)
      (fun first => by rw [length_windowLines, wide]) same
    have starts : windowStarts t.length = windowStarts u.length := by
      have count := congrArg List.length windows
      rw [List.length_map, List.length_map, length_windowStarts, length_windowStarts] at count
      rw [windowStarts, count, windowStarts]
    rw [← starts, List.map_inj_left] at windows
    have long := length_eq_of_windowLines starts windows
    refine ⟨long, fun first member cpu inside => ?_⟩
    have lines := windows first member
    unfold windowLines at lines
    rw [← wide, ← long] at lines
    have named := (List.cons.inj (List.cons.inj (List.cons.inj lines).2).2).2
    have line := List.map_inj_left.1 named cpu (List.mem_range.2 inside)
    exact (String.append_right_inj _).1 line
  · rintro ⟨long, same⟩
    rw [← long]
    refine List.flatMap_congr fun first member => ?_
    unfold windowLines
    rw [← wide, ← long]
    have lines := List.map_congr_left fun cpu (inside : cpu ∈ List.range t.width) =>
      congrArg (cpuName cpu ++ ·) (same first member cpu (List.mem_range.1 inside))
    exact congrArg _ (congrArg _ (congrArg _ lines))

/-! Cells without colour. -/

/-- What a cell shows, before it is widened. -/
def occupantText (content : Cell) : String := content.elim "." Int.repr

theorem plain_cell_eq (content : Cell) :
    cell false content = Text.padRight tickWidth (occupantText content) := by
  cases content with
  | none => rfl
  | some pid =>
    rw [cell, tint, if_neg Bool.false_ne_true]
    rfl

theorem length_plain_cell (content : Cell) :
    (cell false content).toList.length = max (occupantText content).toList.length tickWidth := by
  rw [plain_cell_eq, Text.length_padRight]

theorem lacks_occupantText (content : Cell) : Lacks ' ' (occupantText content) := by
  cases content with
  | none => decide
  | some pid => exact (Text.numeric_intRepr pid).lacks (by decide)

theorem occupantText_inj {content content' : Cell} :
    occupantText content = occupantText content' ↔ content = content' := by
  refine ⟨fun same => ?_, congrArg _⟩
  -- a dot is not read as a number
  have shown : ∀ content : Cell, Text.integer? (occupantText content).toList = content := by
    intro content
    cases content with
    | none => decide
    | some pid => exact Text.integer?_repr pid
  rw [← shown content, same, shown content']

theorem plain_cell_inj {content content' : Cell} :
    cell false content = cell false content' ↔ content = content' := by
  rw [plain_cell_eq, plain_cell_eq,
    Text.padRight_inj (lacks_occupantText content) (lacks_occupantText content'), occupantText_inj]

/-- An identifier that its five columns hold. -/
def FitsColumns (pid : Int) : Prop := -9999 ≤ pid ∧ pid ≤ 99999

theorem length_digits_le {n k : Nat} (small : n < 10 ^ (k + 1)) : n.repr.toList.length ≤ k + 1 := by
  rw [Text.toList_repr]
  exact (Nat.length_toDigits_le_iff (by decide) (Nat.succ_pos k)).2 small

theorem length_intRepr_le {pid : Int} (fits : FitsColumns pid) :
    pid.repr.toList.length ≤ tickWidth := by
  rw [tickWidth_eq]
  obtain ⟨low, high⟩ := fits
  cases pid with
  | ofNat n =>
    have small : n < 10 ^ 5 := by
      rw [Int.ofNat_eq_natCast] at high
      omega
    exact length_digits_le small
  | negSucc n =>
    have small : n + 1 < 10 ^ 4 := by omega
    have rest := length_digits_le small
    have shown : (Int.negSucc n).repr.toList = '-' :: (n + 1).repr.toList := String.toList_append
    rw [shown, List.length_cons]
    omega

theorem length_fitting_cell {content : Cell} (fits : ∀ pid ∈ content, FitsColumns pid) :
    (cell false content).toList.length = tickWidth := by
  rw [length_plain_cell]
  cases content with
  | none => rfl
  | some pid => exact Nat.max_eq_right (length_intRepr_le (fits pid rfl))

/-- Texts that were put one behind the other are the same if each was at most as long. -/
theorem eq_of_flatMap_eq {α β : Type} {f g : α → List β} {l : List α}
    (shorter : ∀ a ∈ l, (f a).length ≤ (g a).length) (same : l.flatMap f = l.flatMap g) :
    ∀ a ∈ l, f a = g a := by
  induction l with
  | nil => exact nofun
  | cons a l ih =>
    obtain ⟨first, others⟩ := List.forall_mem_cons.1 shorter
    rw [List.flatMap_cons, List.flatMap_cons] at same
    have rest : (l.flatMap f).length ≤ (l.flatMap g).length := by
      rw [List.length_flatMap, List.length_flatMap]
      exact List.sum_le_sum others
    have total := congrArg List.length same
    rw [List.length_append, List.length_append] at total
    obtain ⟨head, tail⟩ := List.append_inj same (by omega)
    exact List.forall_mem_cons.2 ⟨head, ih others tail⟩

/-- The cells of a processor in a window that fit their columns can be told from their text. -/
theorem get_eq_of_cells_eq (fits : ∀ tick ∈ ticks, ∀ pid ∈ t.get tick cpu, FitsColumns pid)
    (same : cells false t ticks cpu = cells false u ticks cpu) :
    ∀ tick ∈ ticks, t.get tick cpu = u.get tick cpu := by
  rw [← String.toList_inj, toList_cells, toList_cells] at same
  have shorter : ∀ tick ∈ ticks, (cell false (t.get tick cpu)).toList.length ≤
      (cell false (u.get tick cpu)).toList.length := fun tick member => by
    rw [length_fitting_cell (fits tick member), length_plain_cell]
    exact Nat.le_max_right _ _
  intro tick member
  exact plain_cell_inj.1 (String.toList_inj.1 (eq_of_flatMap_eq shorter same tick member))

theorem get_eq_of_width_le (wide : t.width = u.width) (beyond : t.width ≤ cpu) (tick : Nat) :
    t.get tick cpu = u.get tick cpu := by
  rw [Timeline.get_of_width_le beyond, Timeline.get_of_width_le (wide ▸ beyond)]

/-- Timelines agree in all cells if they agree in all windows. -/
theorem get_eq_of_windows (wide : t.width = u.width) (long : t.length = u.length)
    (same : ∀ first ∈ windowStarts t.length, ∀ cpu < t.width,
      ∀ tick ∈ windowRange t.length first, t.get tick cpu = u.get tick cpu) :
    ∀ tick cpu, t.get tick cpu = u.get tick cpu := by
  intro tick cpu
  by_cases recorded : tick < t.length
  · by_cases inside : cpu < t.width
    · obtain ⟨first, starts, member⟩ := exists_window recorded
      exact same first starts cpu inside tick member
    · exact get_eq_of_width_le wide (Nat.le_of_not_lt inside) tick
  · have late := Nat.le_of_not_lt recorded
    rw [Timeline.get_of_length_le late, Timeline.get_of_length_le (long ▸ late)]

/-- What a drawing without colour tells of a timeline: its length always, and the cells of a
processor in every window where they fit their columns. -/
theorem drawing_read_back (pids : List Int) (t u : Timeline) (wide : t.width = u.width)
    (same : timeline false pids t = timeline false pids u) :
    t.length = u.length ∧
      (∀ first ∈ windowStarts t.length, ∀ cpu,
        (∀ tick ∈ windowRange t.length first, ∀ pid ∈ t.get tick cpu, FitsColumns pid) →
          ∀ tick ∈ windowRange t.length first, t.get tick cpu = u.get tick cpu) ∧
      ((∀ tick cpu, ∀ pid ∈ t.get tick cpu, FitsColumns pid) →
        ∀ tick cpu, t.get tick cpu = u.get tick cpu) := by
  obtain ⟨long, alike⟩ := (timeline_eq_iff wide).1 same
  have windows : ∀ first ∈ windowStarts t.length, ∀ cpu,
      (∀ tick ∈ windowRange t.length first, ∀ pid ∈ t.get tick cpu, FitsColumns pid) →
        ∀ tick ∈ windowRange t.length first, t.get tick cpu = u.get tick cpu := by
    intro first starts cpu fits
    by_cases inside : cpu < t.width
    · exact get_eq_of_cells_eq fits (alike first starts cpu inside)
    · exact fun tick _ => get_eq_of_width_le wide (Nat.le_of_not_lt inside) tick
  refine ⟨long, windows, fun fits => get_eq_of_windows wide long fun first starts cpu _ => ?_⟩
  exact windows first starts cpu fun tick _ => fits tick cpu

/-- Cells that their columns just hold leave no blank between them, and still a tick that was
written twice reads as the later row. -/
theorem drawing_read_back_abutting :
    let t := (Timeline.empty 2 1).writeAll [(1, [some 7, none]), (0, [some (-9999), some 99999]),
      (1, [some 99999, some 1])]
    let u := (Timeline.empty 2 4).writeAll [(0, [some (-9999), some 99999]),
      (1, [some 99999, some 1])]
    t.width = u.width ∧ timeline false [7] t = timeline false [7] u ∧ t.length = u.length ∧
      ∀ tick ∈ windowRange t.length 0,
        (∀ pid ∈ t.get tick 0, FitsColumns pid) ∧ t.get tick 0 = u.get tick 0 := by
  intro t u
  have wide : t.width = u.width := rfl
  have rows : ∀ tick ∈ windowRange t.length 0, ∀ cpu < t.width,
      t.get tick cpu = u.get tick cpu := by decide +kernel
  have starts : windowStarts t.length = [0] := by decide +kernel
  have fits : ∀ tick ∈ windowRange t.length 0, ∀ pid ∈ t.get tick 0, FitsColumns pid := by
    unfold FitsColumns
    decide +kernel
  have same : timeline false [7] t = timeline false [7] u := by
    refine (timeline_eq_iff wide).2 ⟨rfl, fun first member cpu inside => ?_⟩
    obtain rfl : first = 0 := List.mem_singleton.1 (starts ▸ member)
    exact cells_congr fun tick shown => rows tick shown cpu inside
  obtain ⟨long, window, -⟩ := drawing_read_back [7] t u wide same
  have first : 0 ∈ windowStarts t.length := starts ▸ List.mem_singleton_self 0
  exact ⟨wide, same, long, fun tick shown => ⟨fits tick shown, window 0 first 0 fits tick shown⟩⟩

/-- A cell of more than five characters runs into the next one: two timelines whose digits are split
in different places between two ticks have one drawing. -/
theorem wide_cells_run_together :
    let t := (Timeline.empty 1 4).writeAll [(0, [some 12345]), (1, [some 678901])]
    let u := (Timeline.empty 1 4).writeAll [(0, [some 123456]), (1, [some 78901])]
    t.width = u.width ∧ t.length = u.length ∧ timeline false [] t = timeline false [] u ∧
      t.get 0 0 ≠ u.get 0 0 := by
  intro t u
  have wide : t.width = u.width := rfl
  have starts : windowStarts t.length = [0] := by decide +kernel
  have ticks : windowRange t.length 0 = [0, 1] := by decide +kernel
  have digits : cells false t [0, 1] 0 = cells false u [0, 1] 0 := by
    rw [← String.toList_inj, toList_cells, toList_cells]
    simp only [plain_cell_eq, Text.toList_padRight]
    decide +kernel
  refine ⟨wide, rfl, (timeline_eq_iff wide).2 ⟨rfl, fun first member cpu inside => ?_⟩, by decide⟩
  obtain rfl : first = 0 := List.mem_singleton.1 (starts ▸ member)
  obtain rfl : cpu = 0 := Nat.lt_one_iff.1 inside
  rw [ticks]
  exact digits

end CpuScheduling.Report
