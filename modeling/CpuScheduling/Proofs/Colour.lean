import CpuScheduling.Proofs.DrawnTimeline
/-!
Colour. A coloured report is the plain one with escape sequences put in, and a reader that drops
every escape sequence gets the plain one back. Since the sequence behind a cell tells where the
cell ends, a coloured drawing gives its timeline away whatever the identifiers are.
-/
namespace CpuScheduling

namespace Text
variable {text rest digits : List Char} {coloured coloured' plain plain' : String}

/-- What is behind an escape sequence, if a text begins with one: the escape character, a bracket,
digits and an `m`. -/
def behindSequence? : List Char → Option (List Char)
  | '\x1b' :: '[' :: text =>
    match text.takeWhile (·.isDigit), text.dropWhile (·.isDigit) with
    | _ :: _, 'm' :: rest => some rest
    | _, _ => none
  | _ => none

theorem length_behindSequence?_lt (found : behindSequence? text = some rest) :
    rest.length < text.length := by
  unfold behindSequence? at found
  split at found
  next inner =>
    split at found
    next _ _ _ behind =>
      have bound := (List.dropWhile_suffix (l := inner) (·.isDigit)).length_le
      rw [behind, List.length_cons] at bound
      cases found
      simp only [List.length_cons]
      omega
    next => cases found
  next => cases found

/-- A text without its escape sequences. -/
def withoutSequences (text : List Char) : List Char :=
  match _found : behindSequence? text with
  | some rest => withoutSequences rest
  | none =>
    match text with
    | [] => []
    | c :: rest => c :: withoutSequences rest
termination_by text.length
decreasing_by
  · exact length_behindSequence?_lt ‹_›
  · exact Nat.lt_succ_self _

theorem withoutSequences_of_behind (found : behindSequence? text = some rest) :
    withoutSequences text = withoutSequences rest := by
  rw [withoutSequences]
  split
  next rest' found' =>
    rw [found] at found'
    cases found'
    rfl
  next absent => rw [found] at absent; cases absent

theorem withoutSequences_cons {c : Char} (solid : c ≠ '\x1b') (text : List Char) :
    withoutSequences (c :: text) = c :: withoutSequences text := by
  have absent : behindSequence? (c :: text) = none := by
    unfold behindSequence?
    split
    next same => exact absurd (List.cons.inj same).1 solid
    next => rfl
  rw [withoutSequences]
  split
  next found => rw [absent] at found; cases found
  next => rfl

theorem behindSequence?_sequence (some_digit : digits ≠ [])
    (all : ∀ c ∈ digits, c.isDigit = true) (rest : List Char) :
    behindSequence? ('\x1b' :: '[' :: (digits ++ 'm' :: rest)) = some rest := by
  have taken : (digits ++ 'm' :: rest).takeWhile (·.isDigit) = digits := by
    rw [List.takeWhile_append_of_pos all, List.takeWhile_cons_of_neg (by decide), List.append_nil]
  have dropped : (digits ++ 'm' :: rest).dropWhile (·.isDigit) = 'm' :: rest := by
    rw [List.dropWhile_append_of_pos all, List.dropWhile_cons_of_neg (by decide)]
  obtain ⟨first, others, rfl⟩ := List.exists_cons_of_ne_nil some_digit
  rw [behindSequence?, taken, dropped]
  rfl

/-- What a reader sees who drops all escape sequences. -/
def stripped (text : String) : String := String.ofList (withoutSequences text.toList)

/-- Without its escape sequences the one text is the other, whatever stands behind it. -/
def StripsTo (coloured plain : String) : Prop :=
  ∀ rest, withoutSequences (coloured.toList ++ rest) = plain.toList ++ withoutSequences rest

theorem StripsTo.stripped_eq (strips : StripsTo coloured plain) : stripped coloured = plain := by
  have behind_nothing : withoutSequences [] = [] := by
    rw [withoutSequences]
    rfl
  have whole := strips []
  rw [behind_nothing, List.append_nil, List.append_nil] at whole
  rw [stripped, whole, String.ofList_toList]

theorem stripsTo_self (lacks : Lacks '\x1b' plain) : StripsTo plain plain := by
  intro rest
  unfold Lacks at lacks
  generalize plain.toList = text at lacks ⊢
  induction text with
  | nil => rfl
  | cons c text ih =>
    obtain ⟨solid, others⟩ := not_or.1 (List.mem_cons.not.1 lacks)
    rw [List.cons_append, withoutSequences_cons (Ne.symm solid), ih others, List.cons_append]

theorem StripsTo.append (left : StripsTo coloured plain) (right : StripsTo coloured' plain') :
    StripsTo (coloured ++ coloured') (plain ++ plain') := by
  intro rest
  rw [String.toList_append, String.toList_append, List.append_assoc, left, right, List.append_assoc]

theorem stripsTo_join {α : Type} {f g : α → String} {l : List α}
    (each : ∀ a ∈ l, StripsTo (f a) (g a)) :
    StripsTo (String.join (l.map f)) (String.join (l.map g)) := by
  induction l with
  | nil => exact stripsTo_self List.not_mem_nil
  | cons a l ih =>
    obtain ⟨first, others⟩ := List.forall_mem_cons.1 each
    rw [List.map_cons, List.map_cons, String.join_cons, String.join_cons]
    exact first.append (ih others)

theorem stripsTo_unlines {texts texts' : List String} (each : List.Forall₂ StripsTo texts texts') :
    StripsTo (unlines texts) (unlines texts') := by
  induction each with
  | nil => exact stripsTo_self List.not_mem_nil
  | cons first _ ih =>
    have newline : StripsTo "\n" "\n" := stripsTo_self (by decide)
    unfold unlines at ih ⊢
    rw [List.map_cons, List.map_cons, String.join_cons, String.join_cons]
    exact (first.append newline).append ih

end Text

namespace Report
open Text (Lacks StripsTo)

variable {pids : List Int} {t u : Timeline} {ticks : List Nat} {cpu : Nat}

theorem stripsTo_sequence (digits : String) (some_digit : digits.toList ≠ [])
    (all : ∀ c ∈ digits.toList, c.isDigit = true) : StripsTo ("\x1b[" ++ digits ++ "m") "" := by
  intro rest
  have begins := Text.behindSequence?_sequence some_digit all rest
  have shape : ("\x1b[" ++ digits ++ "m").toList ++ rest =
      '\x1b' :: '[' :: (digits.toList ++ 'm' :: rest) := by
    simp [String.toList_append]
  rw [shape, Text.withoutSequences_of_behind begins]
  rfl

theorem stripsTo_tint {text : String} (lacks : Lacks '\x1b' text) (pid : Int) :
    StripsTo (tint true pid text) (tint false pid text) := by
  have begins : StripsTo (colorOf pid) "" := by
    refine stripsTo_sequence _ ?_ ?_ <;> rw [Text.toList_repr]
    · exact Text.digits_ne_nil 0 _
    · exact fun _ => Text.isDigit_of_mem_digits
  have ends : StripsTo colorEnd "" := stripsTo_sequence "0" (by decide) (by simp)
  have whole := (begins.append (Text.stripsTo_self lacks)).append ends
  rw [tint, tint, if_pos rfl, if_neg Bool.false_ne_true]
  rwa [String.empty_append, String.append_empty] at whole

theorem lacks_escape_repr (n : Nat) : Lacks '\x1b' n.repr := (Text.numeric_repr n).lacks (by decide)

theorem lacks_escape_intRepr (v : Int) : Lacks '\x1b' v.repr :=
  (Text.numeric_intRepr v).lacks (by decide)

theorem stripsTo_cell (content : Cell) : StripsTo (cell true content) (cell false content) := by
  cases content with
  | none => exact Text.stripsTo_self (by decide)
  | some pid => exact stripsTo_tint ((lacks_escape_intRepr pid).padRight (by decide) tickWidth) pid

theorem stripsTo_window (t : Timeline) (first : Nat) :
    StripsTo (window true t first) (window false t first) := by
  obtain ⟨head, ruler, name⟩ := lacks_line_parts (c := '\x1b') (by decide) (by decide) (by decide)
  rw [window_eq, window_eq]
  refine Text.stripsTo_unlines (.cons (Text.stripsTo_self (by decide))
    (.cons (Text.stripsTo_self (head _ _)) (.cons (Text.stripsTo_self (ruler _)) ?_)))
  rw [List.forall₂_map_left_iff, List.forall₂_map_right_iff, List.forall₂_same]
  intro cpu _
  exact (Text.stripsTo_self (name cpu)).append (Text.stripsTo_join fun tick _ => stripsTo_cell _)

theorem lacks_escape_keyEntry (pid : Int) : Lacks '\x1b' ("PID " ++ Text.padRight 2 pid.repr) :=
  .append (by decide) ((lacks_escape_intRepr pid).padRight (by decide) 2)

theorem stripsTo_key (pids : List Int) : StripsTo (key true pids) (key false pids) := by
  refine Text.stripsTo_join fun (pid, i) _ => ?_
  have entry := stripsTo_tint (lacks_escape_keyEntry pid) pid
  refine (entry.append (Text.stripsTo_self (by decide))).append (Text.stripsTo_self ?_)
  split <;> decide

theorem stripsTo_timeline (pids : List Int) (t : Timeline) :
    StripsTo (timeline true pids t) (timeline false pids t) := by
  have windows := Text.stripsTo_join fun first (_ : first ∈ windowStarts t.length) =>
    stripsTo_window t first
  refine .append (.append (.append ?_ (stripsTo_key pids)) ?_) windows
  all_goals exact Text.stripsTo_self (by decide)

theorem lacks_escape_timeline (pids : List Int) (t : Timeline) :
    Lacks '\x1b' (timeline false pids t) := by
  have plain : false = true → Lacks '\x1b' "\x1b[m" := nofun
  have entries : Lacks '\x1b' (key false pids) := by
    refine Text.lacks_join fun text member => ?_
    obtain ⟨⟨pid, i⟩, -, rfl⟩ := List.mem_map.1 member
    have entry := lacks_tint (by decide) plain (lacks_escape_keyEntry pid) pid
    refine .append (.append entry (by decide)) ?_
    split <;> decide
  rw [timeline_eq]
  refine .append (.append (.append (by decide) entries) (by decide)) ?_
  refine Text.lacks_unlines (by decide) fun line member => ?_
  obtain ⟨first, -, inside⟩ := List.mem_flatMap.1 member
  exact lacks_windowLines (by decide) plain (by decide) (by decide) line inside

/-! The tables are made of numbers and names. -/

theorem lacks_escape_fixed (x : Float) : Lacks '\x1b' (Decimal.fixed places x) :=
  (Decimal.numeric_fixed places x).lacks (by decide)

theorem lacks_escape_columns {entries : List (Nat × String)}
    (each : ∀ entry ∈ entries, Lacks '\x1b' entry.2) : Lacks '\x1b' (columns entries) := by
  refine Text.lacks_intercalate (by decide) fun text member => ?_
  obtain ⟨entry, inside, rfl⟩ := List.mem_map.1 member
  exact (each entry inside).padRight (by decide) entry.1

theorem lacks_escape_processLine (p : ProcessStatistics) : Lacks '\x1b' (processLine p) := by
  have dash : ∀ time, Lacks '\x1b' (unfinished time) := fun time => by
    unfold unfinished
    split <;> decide
  have absent : Lacks '\x1b' notApplicable := by decide
  refine lacks_escape_columns (List.forall_mem_cons.2 ⟨lacks_escape_intRepr _, ?_⟩)
  rw [List.forall_mem_map]
  split <;> simp only [List.forall_mem_cons, lacks_escape_repr, dash, absent, true_and]
  all_goals exact nofun

theorem lacks_escape_processTable (processes : List ProcessStatistics) :
    Lacks '\x1b' (processTable processes) := by
  have head : ∀ line ∈ ["\nProcess Statistics:",
      processColumns "PID" ["Arrival", "Burst", "Start", "Finish", "Turn.", "Waiting", "Resp."],
      wideRule], Lacks '\x1b' line := by
    simp only [List.forall_mem_cons]
    exact ⟨by decide, lacks_escape_columns (by decide), by decide, nofun⟩
  refine Text.lacks_unlines (by decide) (List.forall_mem_append.2 ⟨List.forall_mem_append.2
    ⟨head, ?_⟩, by decide⟩)
  rw [List.forall_mem_map]
  exact fun p _ => lacks_escape_processLine p

theorem lacks_escape_cpuTable (cpus : List CpuStatistics) : Lacks '\x1b' (cpuTable cpus) := by
  have head : ∀ line ∈ ["\nCPU Statistics:",
      columns [(6, "CPU ID"), (9, "Busy Time"), (9, "Idle Time"), (12, "Utilization")],
      narrowRule], Lacks '\x1b' line := by
    simp only [List.forall_mem_cons]
    exact ⟨by decide, lacks_escape_columns (by decide), by decide, nofun⟩
  refine Text.lacks_unlines (by decide) (List.forall_mem_append.2 ⟨List.forall_mem_append.2
    ⟨head, ?_⟩, by decide⟩)
  rw [List.forall_mem_map]
  intro c _
  refine .append (lacks_escape_columns ?_) (by decide)
  simp only [List.forall_mem_cons, lacks_escape_repr, lacks_escape_fixed, true_and]
  exact nofun

theorem lacks_escape_averages (a : Option Averages) : Lacks '\x1b' (averages a) := by
  have line : ∀ label m, Lacks '\x1b' label → Lacks '\x1b' (averageLine label m) := by
    intro label m lacks
    have name : Lacks '\x1b' (Text.padRight 17 (label ++ " Time:")) :=
      (lacks.append (by decide)).padRight (by decide) 17
    refine .append (.append (.append (by decide) name) (lacks_escape_fixed _)) ?_
    split
    next least greatest _ =>
      exact .append (.append (.append (.append (by decide) (lacks_escape_repr least)) (by decide))
        (lacks_escape_repr greatest)) (by decide)
    next => decide
  cases a with
  | none => decide
  | some a =>
    refine Text.lacks_unlines (by decide) ?_
    simp only [List.forall_mem_cons]
    exact ⟨.append (.append (by decide) (lacks_escape_repr _)) (by decide), line _ _ (by decide),
      line _ _ (by decide), line _ _ (by decide), nofun⟩

theorem stripsTo_text (o : Outcome) (s : Statistics) : StripsTo (text true o s) (text false o s) :=
  ((((Text.stripsTo_self (by decide)).append (stripsTo_timeline _ _)).append
    (Text.stripsTo_self (lacks_escape_processTable _))).append
      (Text.stripsTo_self (lacks_escape_cpuTable _))).append
        (Text.stripsTo_self (lacks_escape_averages _))

theorem lacks_escape_text (o : Outcome) (s : Statistics) : Lacks '\x1b' (text false o s) :=
  .append (.append (.append (.append (by decide) (lacks_escape_timeline _ _))
    (lacks_escape_processTable _)) (lacks_escape_cpuTable _)) (lacks_escape_averages _)

/-! Coloured cells, whatever stands behind them. -/

/-- Two texts are equal up to the first of some character if they go on alike from there. -/
theorem append_cons_inj {α : Type} {c : α} {l l' rest rest' : List α} (first : c ∉ l)
    (first' : c ∉ l') (same : l ++ c :: rest = l' ++ c :: rest') : l = l' ∧ rest = rest' := by
  induction l generalizing l' with
  | nil =>
    cases l' with
    | nil => exact ⟨rfl, (List.cons.inj same).2⟩
    | cons a l' =>
      exact absurd (List.cons.inj same).1 fun here => first' (here ▸ List.mem_cons_self)
  | cons a l ih =>
    cases l' with
    | nil =>
      exact absurd (List.cons.inj same).1 fun here => first (here ▸ List.mem_cons_self)
    | cons a' l' =>
      obtain ⟨rfl, others⟩ := List.cons.inj same
      obtain ⟨rfl, behind⟩ := ih (List.not_mem_of_not_mem_cons first)
        (List.not_mem_of_not_mem_cons first') others
      exact ⟨rfl, behind⟩

/-- A coloured identifier: between the sequence that starts its colour and the one that ends it. -/
theorem toList_coloured_cell (pid : Int) (rest : List Char) :
    (cell true (some pid)).toList ++ rest =
      '\x1b' :: (('[' :: (31 + (pid % 7).toNat).repr.toList) ++ 'm' ::
        ((Text.padRight tickWidth pid.repr).toList ++ '\x1b' :: ("[0m".toList ++ rest))) := by
  rw [cell, tint, if_pos rfl]
  simp [colorOf, colorEnd]

/-- A coloured cell can be told from any text that it begins. -/
theorem coloured_cell_inj {content content' : Cell} {rest rest' : List Char}
    (same : (cell true content).toList ++ rest = (cell true content').toList ++ rest') :
    content = content' ∧ rest = rest' := by
  have idle : (cell true none).toList = '.' :: "    ".toList := by decide
  have shade : ∀ n : Nat, 'm' ∉ '[' :: n.repr.toList := fun n => by
    have digits : 'm' ∉ n.repr.toList := (Text.numeric_repr n).lacks (by decide)
    exact List.not_mem_cons_of_ne_of_not_mem (by decide) digits
  have padded : ∀ pid : Int, Lacks '\x1b' (Text.padRight tickWidth pid.repr) := fun pid =>
    (lacks_escape_intRepr pid).padRight (by decide) tickWidth
  have solid : ∀ pid : Int, Lacks ' ' pid.repr := fun pid =>
    (Text.numeric_intRepr pid).lacks (by decide)
  cases content with
  | none =>
    cases content' with
    | none => exact ⟨rfl, List.append_cancel_left same⟩
    | some pid' =>
      rw [idle, toList_coloured_cell] at same
      exact absurd (List.cons.inj same).1 (by decide)
  | some pid =>
    cases content' with
    | none =>
      rw [idle, toList_coloured_cell] at same
      exact absurd (List.cons.inj same).1 (by decide)
    | some pid' =>
      rw [toList_coloured_cell, toList_coloured_cell] at same
      obtain ⟨-, behind⟩ := append_cons_inj (shade _) (shade _) (List.cons.inj same).2
      obtain ⟨shown, others⟩ := append_cons_inj (padded pid) (padded pid') behind
      have equal := (Text.padRight_inj (solid pid) (solid pid')).1 (String.toList_inj.1 shown)
      exact ⟨congrArg some (Text.intRepr_inj.1 equal), List.append_cancel_left others⟩

theorem get_eq_of_coloured_cells_eq (same : cells true t ticks cpu = cells true u ticks cpu) :
    ∀ tick ∈ ticks, t.get tick cpu = u.get tick cpu := by
  rw [← String.toList_inj, toList_cells, toList_cells] at same
  induction ticks with
  | nil => exact nofun
  | cons tick ticks ih =>
    rw [List.flatMap_cons, List.flatMap_cons] at same
    obtain ⟨here, others⟩ := coloured_cell_inj same
    exact List.forall_mem_cons.2 ⟨here, ih others⟩

/-- Colour is presentation only: without its escape sequences a coloured report is the plain one, in
which there is no escape character. And a coloured drawing shows the length and every cell of its
timeline, however wide the identifiers are. -/
theorem colour_is_presentation :
    (∀ o s, Text.stripped (text true o s) = text false o s ∧ '\x1b' ∉ (text false o s).toList) ∧
      ∀ pids t u, t.width = u.width → timeline true pids t = timeline true pids u →
        t.length = u.length ∧ ∀ tick cpu, t.get tick cpu = u.get tick cpu := by
  refine ⟨fun o s => ⟨(stripsTo_text o s).stripped_eq, lacks_escape_text o s⟩,
    fun pids t u wide same => ?_⟩
  obtain ⟨long, alike⟩ := (timeline_eq_iff wide).1 same
  exact ⟨long, get_eq_of_windows wide long fun first starts cpu inside =>
    get_eq_of_coloured_cells_eq (alike first starts cpu inside)⟩

/-- Two histories of one timeline have one coloured drawing; and where identifiers run together
without colour, the drawings with colour differ. -/
theorem colour_is_presentation_wide :
    let t := (Timeline.empty 1 4).writeAll [(0, [some 12345]), (1, [some 678901])]
    let again := (Timeline.empty 1 1).writeAll [(1, [some 678901]), (0, [none]), (0, [some 12345])]
    let u := (Timeline.empty 1 4).writeAll [(0, [some 123456]), (1, [some 78901])]
    t.width = again.width ∧ timeline true [] t = timeline true [] again ∧
      (t.length = again.length ∧ ∀ tick cpu, t.get tick cpu = again.get tick cpu) ∧
      timeline true [] t ≠ timeline true [] u := by
  intro t again u
  have wide : t.width = again.width := rfl
  have starts : windowStarts t.length = [0] := by decide +kernel
  have rows : ∀ tick ∈ windowRange t.length 0, ∀ cpu < t.width,
      t.get tick cpu = again.get tick cpu := by decide +kernel
  have same : timeline true [] t = timeline true [] again := by
    refine (timeline_eq_iff wide).2 ⟨rfl, fun first member cpu inside => ?_⟩
    obtain rfl : first = 0 := List.mem_singleton.1 (starts ▸ member)
    exact cells_congr fun tick shown => rows tick shown cpu inside
  refine ⟨wide, same, colour_is_presentation.2 [] t again wide same, fun run_together => ?_⟩
  have equal := (colour_is_presentation.2 [] t u rfl run_together).2 0 0
  revert equal
  decide

end Report
end CpuScheduling
