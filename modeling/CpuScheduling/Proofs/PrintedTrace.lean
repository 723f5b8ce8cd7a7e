import CpuScheduling.Proofs.Characters
import CpuScheduling.Proofs.LineGrammar
/-!
Printed traces. A printed trace has one line for each event, and each line can be read back. The
words for the kinds of events stand in one column as long as the numbers of all processors have
equally many digits, since the column of a processor is as wide as its number.
-/
namespace CpuScheduling

namespace Text

theorem not_isUpper_of_mem_repr {n : Nat} {c : Char} (member : c ∈ n.repr.toList) :
    c.isUpper = false := by
  rw [toList_repr] at member
  have digit : 48 ≤ c.toNat ∧ c.toNat ≤ 57 :=
    Char.isDigit_iff_toNat.1 (isDigit_of_mem_digits member)
  exact decide_eq_false fun upper =>
    absurd (Nat.le_trans (UInt32.le_iff_toNat_le.1 upper.1) digit.2) (by decide)

end Text

namespace Event
open Text (Solid Blank Spaces Gap Lacks)

/-- The column of the first capital of a line. -/
def wordColumn (line : List Char) : Nat := line.findIdx (·.isUpper)

/-- The word for a kind without the spaces that fill its column. -/
def Kind.name : Kind → String
  | .dispatched => "DISPATCH"
  | .preempted => "PREEMPT"
  | .expired => "EXPIRE"
  | .completed => "COMPLETE"

def Kind.ofName? (word : List Char) : Option Kind :=
  [dispatched, preempted, expired, completed].find? fun kind => kind.name.toList = word

/-- Reads the tick from the word before the bracket, and the processor, the kind and the identifier
from the three words behind it, two of which have a label of four characters. -/
def readEvent? (line : List Char) : Option Event :=
  match line.splitOn ']' with
  | [stamp, rest] =>
    match Text.words (stamp.drop 1), Text.words rest with
    | [tick], [cpu, word, pid] => do
      pure { tick := ← Text.natural? tick, cpu := ← Text.natural? (cpu.drop 4)
             kind := ← Kind.ofName? word, pid := ← Text.integer? (pid.drop 4) }
    | _, _ => none
  | _ => none

theorem Kind.ofName?_name (kind : Kind) : ofName? kind.name.toList = some kind := by
  cases kind <;> decide

theorem Kind.solid_name (kind : Kind) : Solid kind.name.toList := by
  cases kind <;> decide

theorem Kind.isUpper_name (kind : Kind) :
    ∃ c rest, kind.name.toList = c :: rest ∧ c.isUpper = true := by
  cases kind with
  | dispatched => exact ⟨'D', _, rfl, rfl⟩
  | preempted => exact ⟨'P', _, rfl, rfl⟩
  | expired => exact ⟨'E', _, rfl, rfl⟩
  | completed => exact ⟨'C', _, rfl, rfl⟩

theorem Kind.word_eq (kind : Kind) :
    ∃ gap, kind.word.toList = kind.name.toList ++ gap ∧ Spaces gap := by
  cases kind with
  | dispatched | completed => exact ⟨[], rfl, by decide⟩
  | preempted => exact ⟨[' '], rfl, by decide⟩
  | expired => exact ⟨[' ', ' '], rfl, by decide⟩

/-- What stands before the bracket of a line. -/
def stamp (e : Event) : String := "[" ++ Text.padLeft 8 e.tick.repr

/-- What stands behind it. -/
def details (e : Event) : String :=
  " cpu=" ++ e.cpu.repr ++ " " ++ e.kind.word ++ " pid=" ++ e.pid.repr

theorem toList_line (e : Event) : e.line.toList = e.stamp.toList ++ ']' :: e.details.toList := by
  simp [line, stamp, details]

theorem words_stamp (e : Event) : Text.words (e.stamp.toList.drop 1) = [e.tick.repr.toList] := by
  have inner : e.stamp.toList.drop 1 = (Text.padLeft 8 e.tick.repr).toList := by simp [stamp]
  have filled : Blank (List.replicate (8 - e.tick.repr.toList.length) ' ') := fun c member => by
    rw [(List.mem_replicate.1 member).2]
    rfl
  rw [inner, Text.toList_padLeft, Text.words_blank_append filled,
    Text.words_of_solid (Text.solid_repr _)]

theorem words_details (e : Event) :
    Text.words e.details.toList = ["cpu=".toList ++ e.cpu.repr.toList, e.kind.name.toList,
      "pid=".toList ++ e.pid.repr.toList] := by
  obtain ⟨gap, word, spaces⟩ := e.kind.word_eq
  have parts : e.details.toList = [' '] ++ (("cpu=".toList ++ e.cpu.repr.toList) ++ ([' '] ++
      (e.kind.name.toList ++ ((gap ++ [' ']) ++ ("pid=".toList ++ e.pid.repr.toList))))) := by
    simp [details, word]
  have behind : Gap (gap ++ [' ']) :=
    ⟨List.append_ne_nil_of_right_ne_nil _ (List.cons_ne_nil _ _),
      List.forall_mem_append.2 ⟨spaces, Text.gap_space.2⟩⟩
  have labels : Solid "cpu=".toList ∧ Solid "pid=".toList := by decide
  rw [parts, Text.words_blank_append (by decide),
    Text.words_field (labels.1.append (Text.solid_repr _)) Text.gap_space,
    Text.words_field e.kind.solid_name behind,
    Text.words_of_solid (labels.2.append (Text.solid_intRepr _))]

/-- The characters that part a trace into lines and a line into two do not occur within them. -/
theorem lacks_parts (e : Event) {c : Char} (mark : c = ']' ∨ c = '\n') :
    Lacks c e.stamp ∧ Lacks c e.details := by
  have foreign : Text.isNumeric c = false := by rcases mark with rfl | rfl <;> decide
  have other : c ≠ ' ' := by rcases mark with rfl | rfl <;> decide
  have labels : Lacks c "[" ∧ Lacks c " cpu=" ∧ Lacks c " " ∧ Lacks c " pid=" := by
    rcases mark with rfl | rfl <;> decide
  have word : Lacks c e.kind.word := by
    rcases mark with rfl | rfl <;> cases e.kind <;> decide
  obtain ⟨bracket, cpu, space, pid⟩ := labels
  have natural : ∀ n : Nat, Lacks c n.repr := fun n => (Text.numeric_repr n).lacks foreign
  have integer : ∀ v : Int, Lacks c v.repr := fun v => (Text.numeric_intRepr v).lacks foreign
  exact ⟨bracket.append ((natural _).padLeft other 8),
    ((((cpu.append (natural _)).append space).append word).append pid).append (integer _)⟩

theorem splitOn_line (e : Event) :
    e.line.toList.splitOn ']' = [e.stamp.toList, e.details.toList] := by
  obtain ⟨stamp, details⟩ := e.lacks_parts (.inl rfl)
  rw [toList_line, Text.splitOn_append_cons stamp, Text.splitOn_of_lacks details]

/-- Every line tells its event. -/
theorem readEvent?_line (e : Event) : readEvent? e.line.toList = some e := by
  have labels : ("cpu=".toList ++ e.cpu.repr.toList).drop 4 = e.cpu.repr.toList ∧
      ("pid=".toList ++ e.pid.repr.toList).drop 4 = e.pid.repr.toList := ⟨rfl, rfl⟩
  unfold readEvent?
  simp only [splitOn_line, words_stamp, words_details, labels, Text.natural?_repr,
    Text.integer?_repr, Kind.ofName?_name]
  rfl

theorem lacks_newline_line (e : Event) : Lacks '\n' e.line := by
  obtain ⟨stamp, details⟩ := e.lacks_parts (.inr rfl)
  unfold Lacks at *
  rw [toList_line, List.mem_append, List.mem_cons]
  exact not_or.2 ⟨stamp, not_or.2 ⟨by decide, details⟩⟩

/-! Columns. -/

/-- What stands before the word of a line. -/
def lead (e : Event) : String := e.stamp ++ "] cpu=" ++ e.cpu.repr ++ " "

theorem line_eq (e : Event) :
    e.line.toList = e.lead.toList ++ (e.kind.word.toList ++ (" pid=" ++ e.pid.repr).toList) := by
  simp [line, lead, stamp]

theorem length_lead (e : Event) :
    e.lead.toList.length = 8 + max 8 e.tick.repr.toList.length + e.cpu.repr.toList.length := by
  simp [lead, stamp, Text.toList_padLeft]
  omega

/-- No capital stands before the word. -/
theorem not_isUpper_of_mem_lead (e : Event) : ∀ c ∈ e.lead.toList, c.isUpper = false := by
  have literal : ∀ {text : String}, (text.toList.all fun c => !c.isUpper) = true →
      ∀ c ∈ text.toList, c.isUpper = false := fun none_upper c member => by
    simpa using List.all_eq_true.1 none_upper c member
  intro c member
  simp only [lead, stamp, String.toList_append, Text.toList_padLeft, List.mem_append,
    List.mem_replicate] at member
  rcases member with ((((bracket | ⟨-, rfl⟩ | tick) | label) | cpu) | space)
  · exact literal (by decide) c bracket
  · rfl
  · exact Text.not_isUpper_of_mem_repr tick
  · exact literal (by decide) c label
  · exact Text.not_isUpper_of_mem_repr cpu
  · exact literal (by decide) c space

theorem wordColumn_line (e : Event) : wordColumn e.line.toList = e.lead.toList.length := by
  have none_before := List.findIdx_eq_length.2 e.not_isUpper_of_mem_lead
  obtain ⟨gap, word, -⟩ := e.kind.word_eq
  obtain ⟨c, rest, name, upper⟩ := e.kind.isUpper_name
  rw [wordColumn, line_eq, List.findIdx_append, none_before, if_neg (Nat.lt_irrefl _), word, name,
    List.cons_append, List.cons_append, List.findIdx_cons, upper, cond_true, Nat.zero_add]

theorem prefix_wordColumn (e : Event) :
    e.kind.word.toList <+: e.line.toList.drop (wordColumn e.line.toList) := by
  rw [wordColumn_line, line_eq, List.drop_left]
  exact List.prefix_append _ _

/-- A tick of at most eight digits does not widen its column. -/
theorem wordColumn_of_narrow {e : Event} (narrow : e.tick < 10 ^ 8) :
    wordColumn e.line.toList = 16 + e.cpu.repr.toList.length := by
  have short : e.tick.repr.toList.length ≤ 8 := by
    rw [Text.toList_repr]
    exact (Nat.length_toDigits_le_iff (by decide) (by decide)).2 narrow
  rw [wordColumn_line, length_lead, Nat.max_eq_left short]

end Event

namespace Trace
open Event (wordColumn readEvent?)

/-- A printed trace has one line for each event, in order, and each line tells its event. The word
of an event is where the capitals of its line begin. As long as ticks have at most eight digits,
sixteen columns and the digits of a processor stand before it, so that all words stand in one column
just when the numbers of all processors have equally many digits. -/
theorem printed_trace (trace : Trace) :
    trace.text.toList.splitOn '\n' = (trace.toList.map fun e => e.line.toList) ++ [[]] ∧
      (∀ e ∈ trace.toList, readEvent? e.line.toList = some e ∧
        e.kind.word.toList <+: e.line.toList.drop (wordColumn e.line.toList)) ∧
      ((∀ e ∈ trace.toList, e.tick < 10 ^ 8) →
        (∀ e ∈ trace.toList, wordColumn e.line.toList = 16 + e.cpu.repr.toList.length) ∧
        ((∃ column, ∀ e ∈ trace.toList, wordColumn e.line.toList = column) ↔
          ∃ digits, ∀ e ∈ trace.toList, e.cpu.repr.toList.length = digits)) := by
  have single : ∀ line ∈ trace.toList.map Event.line, Text.Lacks '\n' line :=
    List.forall_mem_map.2 fun e _ => e.lacks_newline_line
  refine ⟨?_, fun e _ => ⟨e.readEvent?_line, e.prefix_wordColumn⟩, fun narrow => ?_⟩
  · rw [text, Text.splitOn_unlines single, List.map_map]
    rfl
  · have placed : ∀ e ∈ trace.toList, wordColumn e.line.toList = 16 + e.cpu.repr.toList.length :=
      fun e member => Event.wordColumn_of_narrow (narrow e member)
    refine ⟨placed, ?_, ?_⟩
    · rintro ⟨column, aligned⟩
      exact ⟨column - 16, fun e member => by rw [← aligned e member, placed e member]; omega⟩
    · rintro ⟨digits, alike⟩
      exact ⟨16 + digits, fun e member => by rw [placed e member, alike e member]⟩

/-- Two processors of one digit: the words stand in column seventeen, though one tick fills its
column and the other does not. -/
theorem printed_trace_aligned :
    let trace : Trace := #[⟨0, 3, .dispatched, -5⟩, ⟨12345678, 9, .expired, 2147483647⟩]
    (∀ e ∈ trace.toList, e.tick < 10 ^ 8) ∧
      (∀ e ∈ trace.toList, wordColumn e.line.toList = 17) ∧
      trace.toList.map (fun e => readEvent? e.line.toList) = trace.toList.map some := by
  intro trace
  have narrow : ∀ e ∈ trace.toList, e.tick < 10 ^ 8 := by decide
  obtain ⟨-, told, columns⟩ := printed_trace trace
  have digits : ∀ e ∈ trace.toList, e.cpu.repr.toList.length = 1 := by decide
  refine ⟨narrow, fun e member => ?_, List.map_congr_left fun e member => (told e member).1⟩
  rw [(columns narrow).1 e member, digits e member]

/-- The number of a processor is not filled up to its column: the word behind processor ten stands
one column to the right of the word behind processor zero. -/
theorem columns_shift :
    let trace : Trace := #[⟨0, 0, .dispatched, 1⟩, ⟨0, 10, .dispatched, 11⟩]
    (∀ e ∈ trace.toList, e.tick < 10 ^ 8 ∧ e.cpu < 10 ^ 3) ∧
      trace.toList.map (fun e => wordColumn e.line.toList) = [17, 18] ∧
      ¬∃ column, ∀ e ∈ trace.toList, wordColumn e.line.toList = column := by
  intro trace
  have first : wordColumn (Event.line ⟨0, 0, .dispatched, 1⟩).toList = 17 :=
    Event.wordColumn_of_narrow (by decide)
  have second : wordColumn (Event.line ⟨0, 10, .dispatched, 11⟩).toList = 18 :=
    Event.wordColumn_of_narrow (by decide)
  refine ⟨by decide, ?_, fun ⟨column, aligned⟩ => ?_⟩
  · simp only [trace, List.map_cons, List.map_nil, first, second]
  · have zero := aligned ⟨0, 0, .dispatched, 1⟩ (by decide)
    have ten := aligned ⟨0, 10, .dispatched, 11⟩ (by decide)
    exact absurd (first.symm.trans (zero.trans (ten.symm.trans second))) (by decide)

end Trace
end CpuScheduling
