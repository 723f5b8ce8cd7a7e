import CpuScheduling.Workload.Text
import Mathlib.Data.List.Basic
import Mathlib.Data.List.TakeWhile
import Mathlib.Tactic.Conv
/-!
Words and lines. A line says what its words say, whatever the blanks are that stand between and
around them, so the return that may be left of its ending does not matter. What a text says is what
its pieces between newlines say, one after another.
-/
namespace CpuScheduling

namespace Text
variable {c : Char} {text word rest lead trail : List Char}

/-- Nothing but blanks. -/
def Blank (text : List Char) : Prop := ∀ c ∈ text, isBlank c = true

/-- A word: characters, and no blank among them. -/
def Solid (word : List Char) : Prop := word ≠ [] ∧ ∀ c ∈ word, isBlank c = false

/-- What may stand right behind a word: nothing, or a blank and anything after it. -/
def Apart (rest : List Char) : Prop := ∀ c ∈ rest.head?, isBlank c = true

-- Named, since the search may find the instance that goes through all characters instead.
instance (text : List Char) : Decidable (Blank text) := List.decidableBAll _ text

instance (word : List Char) : Decidable (Solid word) :=
  @instDecidableAnd _ _ _ (List.decidableBAll _ word)

instance (rest : List Char) : Decidable (Apart rest) := Option.decidableForallMem rest.head?

theorem Blank.tail {c : Char} (blank : Blank (c :: text)) : Blank text :=
  fun d member => blank d (List.mem_cons_of_mem c member)

theorem Solid.append (solid : Solid lead) (solid' : Solid word) : Solid (lead ++ word) :=
  ⟨List.append_ne_nil_of_left_ne_nil solid.1 _, List.forall_mem_append.2 ⟨solid.2, solid'.2⟩⟩

/-! Words. -/

@[simp] theorem words_nil : words [] = [] := by
  simp [words]

/-- A blank ends one word and comes before another. -/
theorem words_append_cons (text rest : List Char) (blank : isBlank c = true) :
    words (text ++ c :: rest) = words text ++ words rest := by
  simp [words, List.splitOnP_append_cons _ _ blank]

theorem words_blank_append (blank : Blank lead) (text : List Char) :
    words (lead ++ text) = words text := by
  induction lead with
  | nil => rfl
  | cons c lead ih =>
    have cut := words_append_cons [] (lead ++ text) (blank c List.mem_cons_self)
    rw [words_nil] at cut
    exact cut.trans (ih blank.tail)

theorem words_of_blank (blank : Blank text) : words text = [] := by
  simpa using words_blank_append blank []

theorem words_append_blank (text : List Char) (blank : Blank trail) :
    words (text ++ trail) = words text := by
  cases trail with
  | nil => rw [List.append_nil]
  | cons c trail =>
    rw [words_append_cons text trail (blank c List.mem_cons_self), words_of_blank blank.tail,
      List.append_nil]

theorem words_of_solid (solid : Solid word) : words word = [word] := by
  simp [words, List.splitOnP_eq_singleton solid.2, solid.1]

theorem words_solid_append (solid : Solid word) (apart : Apart rest) :
    words (word ++ rest) = word :: words rest := by
  cases rest with
  | nil => simpa using words_of_solid solid
  | cons c rest =>
    have blank : isBlank c = true := apart c rfl
    have skipped : words (c :: rest) = words rest := words_append_cons [] rest blank
    rw [words_append_cons word rest blank, words_of_solid solid, skipped]
    rfl

/-- A text that begins with no blank begins with a word. -/
theorem exists_word (solid : isBlank c = false) (text : List Char) :
    ∃ word rest, Solid word ∧ Apart rest ∧ c :: text = word ++ rest := by
  refine ⟨c :: text.takeWhile fun d => !isBlank d, text.dropWhile fun d => !isBlank d, ?_, ?_, ?_⟩
  · refine ⟨List.cons_ne_nil c _, List.forall_mem_cons.2 ⟨solid, fun d member => ?_⟩⟩
    simpa using List.mem_takeWhile_imp member
  · intro d first
    have kept := List.head?_dropWhile_not (fun d => !isBlank d) text
    rw [show (text.dropWhile fun d => !isBlank d).head? = some d from first] at kept
    simpa using kept
  · rw [List.cons_append, List.takeWhile_append_dropWhile]

/-- A text that begins with no blank has a first word that begins alike. -/
theorem words_cons_of_solid (solid : isBlank c = false) (text : List Char) :
    ∃ word more, words (c :: text) = (c :: word) :: more := by
  obtain ⟨word, rest, whole, apart, split⟩ := exists_word solid text
  obtain ⟨d, word, rfl⟩ := List.exists_cons_of_ne_nil whole.1
  obtain rfl : c = d := (List.cons.inj split).1
  exact ⟨word, words rest, by rw [split, words_solid_append whole apart]⟩

/-! Trimming. -/

theorem eq_blank_append_trimLeft (text : List Char) :
    ∃ lead, Blank lead ∧ text = lead ++ trimLeft text :=
  ⟨text.takeWhile isBlank, fun _ member => List.mem_takeWhile_imp member,
    List.takeWhile_append_dropWhile.symm⟩

theorem eq_trim_append_blank (text : List Char) :
    ∃ trail, Blank trail ∧ trimLeft text = trim text ++ trail := by
  obtain ⟨lead, blank, whole⟩ := eq_blank_append_trimLeft (trimLeft text).reverse
  refine ⟨lead.reverse, fun c member => blank c (List.mem_reverse.1 member), ?_⟩
  rw [trim, ← List.reverse_append, ← whole, List.reverse_reverse]

/-- A trimmed text has the same words. -/
theorem words_trim (text : List Char) : words (trim text) = words text := by
  obtain ⟨lead, blank, whole⟩ := eq_blank_append_trimLeft text
  obtain ⟨trail, blank', split⟩ := eq_trim_append_blank text
  calc words (trim text) = words (trim text ++ trail) := (words_append_blank _ blank').symm
    _ = words (lead ++ trimLeft text) := by rw [words_blank_append blank, split]
    _ = words text := by rw [← whole]

theorem solid_of_head?_trimLeft {text : List Char} (first : (trimLeft text).head? = some c) :
    isBlank c = false := by
  have kept := List.head?_dropWhile_not isBlank text
  rwa [show (text.dropWhile isBlank).head? = some c from first] at kept

/-- A trimmed text begins with no blank. -/
theorem solid_of_head?_trim {text : List Char} (first : (trim text).head? = some c) :
    isBlank c = false := by
  obtain ⟨trail, -, split⟩ := eq_trim_append_blank text
  exact solid_of_head?_trimLeft (by rw [split, List.head?_append, first, Option.some_or])

end Text

namespace Workload

/-- What the words of a line say. -/
def saying : List (List Char) → Option (Except LineFault Job)
  | [] => none
  | word :: more => if word.head? = some '#' then none else some (readWords (word :: more))

theorem readLine_eq (line : List Char) : readLine line = saying (Text.words line) := by
  rw [readLine, ← Text.words_trim line]
  cases trimmed : Text.trim line with
  | nil => rfl
  | cons c text =>
    have solid : Text.isBlank c = false :=
      Text.solid_of_head?_trim (by rw [trimmed, List.head?_cons])
    obtain ⟨word, more, words⟩ := Text.words_cons_of_solid solid text
    rw [words]
    by_cases hash : c = '#' <;> simp [isRemark, saying, hash]

/-- A line without a word, or whose first word begins with a hash. -/
inductive Silent : List Char → Prop
  | blank {line : List Char} (blank : Text.Blank line) : Silent line
  | hash {lead text : List Char} (blank : Text.Blank lead) : Silent (lead ++ '#' :: text)

theorem Silent.readLine_eq {line : List Char} (silent : Silent line) : readLine line = none := by
  rw [Workload.readLine_eq]
  cases silent with
  | blank blank => rw [Text.words_of_blank blank, saying]
  | @hash lead text blank =>
    have solid : Text.isBlank '#' = false := by decide
    obtain ⟨word, more, words⟩ := Text.words_cons_of_solid solid text
    rw [Text.words_blank_append blank, words, saying, List.head?_cons, if_pos rfl]

/-- The return of a line ending is a blank like any other. -/
theorem readLine_append_return (line : List Char) : readLine (line ++ ['\r']) = readLine line := by
  rw [readLine_eq, readLine_eq, Text.words_append_blank line (by decide)]

@[simp] theorem readLine_dropReturn (line : List Char) :
    readLine (Text.dropReturn line) = readLine line := by
  unfold Text.dropReturn
  split
  next ends =>
    obtain ⟨line, rfl⟩ := List.getLast?_eq_some_iff.1 ends
    rw [List.dropLast_concat, readLine_append_return]
  next => rfl

/-- What the lines of a text say, in order. -/
def said (text : List Char) : List (Except LineFault Job) :=
  (text.splitOnP (· == '\n')).filterMap readLine

/-- A newline ends one line and comes before another, wherever it stands. -/
theorem said_append_newline (text rest : List Char) :
    said (text ++ '\n' :: rest) = said text ++ said rest := by
  simp [said, List.splitOnP_append_cons]

theorem said_of_line {line : List Char} (inside : '\n' ∉ line) :
    said line = (readLine line).toList := by
  have whole : line.splitOnP (· == '\n') = [line] := by
    refine List.splitOnP_eq_singleton fun c member => ?_
    simp only [beq_eq_false_iff_ne]
    rintro rfl
    exact inside member
  rw [said, whole]
  cases reading : readLine line <;> simp [reading]

/-- Neither the returns before newlines nor an empty last line say anything. -/
theorem filterMap_readLine_lines (text : List Char) :
    (Text.lines text).filterMap readLine = said text := by
  obtain ⟨pieces, last, split⟩ :=
    (List.eq_nil_or_concat (text.splitOnP (· == '\n'))).resolve_left (List.splitOnP_ne_nil _ _)
  simp only [Text.lines, said, split, List.concat_eq_append, List.dropLast_concat,
    List.getLast?_concat, List.filterMap_append, List.filterMap_map]
  congr 1
  · exact List.filterMap_congr fun line _ => readLine_dropReturn line
  · cases last <;> rfl

theorem map_readings (text : List Char) : (readings text).map (·.2) = said text := by
  rw [← filterMap_readLine_lines, readings, List.map_filterMap]
  conv_rhs => rw [← List.zipIdx_map_fst 0 (Text.lines text), List.filterMap_map]
  refine List.filterMap_congr fun e _ => ?_
  cases reading : readLine e.1 <;> simp [reading]

theorem jobs_ofText (text : List Char) :
    (ofText text).jobs = (said text).filterMap Except.toOption := by
  rw [← map_readings, List.filterMap_map]
  refine List.filterMap_congr fun e _ => ?_
  rcases e with ⟨number, _ | _⟩ <;> rfl

theorem skipped_ofText (text : List Char) :
    (ofText text).skipped = (said text).countP (!·.isOk) := by
  rw [← map_readings, List.countP_map, skipped, ofText, List.length_filterMap_eq_countP]
  refine List.countP_congr fun e _ => ?_
  rcases e with ⟨number, _ | _⟩ <;> simp [rejection?, Except.isOk, Except.toBool]

end Workload
end CpuScheduling
