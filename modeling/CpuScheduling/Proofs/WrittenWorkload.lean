import CpuScheduling.Proofs.Words
/-!
Written workloads. A text that writes jobs one a line, with whatever spaces, remarks and line
endings, is read back as just these jobs.
-/
namespace CpuScheduling

namespace Text

/-- The digits of a number, perhaps with zeros before them. -/
def digits (zeros n : Nat) : List Char := List.replicate zeros '0' ++ Nat.toDigits 10 n

/-- A decimal numeral of an integer. A number that is not negative may have a plus sign. -/
inductive Numeral : Int → List Char → Prop
  | plain (zeros n : Nat) : Numeral n (digits zeros n)
  | plus (zeros n : Nat) : Numeral n ('+' :: digits zeros n)
  | minus (zeros n : Nat) : Numeral (-n) ('-' :: digits zeros n)

/-- Blanks that end no line. -/
def Spaces (text : List Char) : Prop := ∀ c ∈ text, isBlank c = true ∧ c ≠ '\n'

/-- What parts two words of a line. -/
def Gap (text : List Char) : Prop := text ≠ [] ∧ Spaces text

instance (text : List Char) : Decidable (Spaces text) := List.decidableBAll _ text

instance (text : List Char) : Decidable (Gap text) :=
  inferInstanceAs (Decidable (text ≠ [] ∧ Spaces text))

/-- What ends a line. -/
inductive LineEnd : List Char → Prop
  | newline : LineEnd ['\n']
  | returned : LineEnd ['\r', '\n']

end Text

open Text (Numeral Spaces Gap LineEnd)

namespace Workload

/-- A job whose numbers fit where they are read. -/
structure Describable (job : Job) : Prop where
  pid : fitsInt32 job.pid = true
  arrival : job.arrival ≤ maxInt32
  burst_pos : 0 < job.burst
  burst : job.burst ≤ maxInt32
  priority : fitsInt32 job.priority = true

/-- What stands behind the burst of a job. A priority of zero may be left out; behind one that is
written, and parted from it, may stand anything. -/
inductive Tail : Int → List Char → Prop
  | omitted {trail : List Char} (spaces : Spaces trail) : Tail 0 trail
  | written {priority : Int} {gap word rest : List Char} (gap_spaces : Gap gap)
      (numeral : Numeral priority word) (apart : Text.Apart rest) (inside : '\n' ∉ rest) :
      Tail priority (gap ++ (word ++ rest))

/-- A line that describes a job. -/
inductive JobLine (job : Job) : List Char → Prop
  | mk {lead pid gap arrival gap' burst tail : List Char} (lead_spaces : Spaces lead)
      (pid_numeral : Numeral job.pid pid) (gap_spaces : Gap gap)
      (arrival_numeral : Numeral job.arrival arrival) (gap_spaces' : Gap gap')
      (burst_numeral : Numeral job.burst burst) (tail_written : Tail job.priority tail) :
      JobLine job (lead ++ (pid ++ (gap ++ (arrival ++ (gap' ++ (burst ++ tail))))))

/-- A line that says nothing. -/
inductive Remark : List Char → Prop
  | blank {line : List Char} (spaces : Spaces line) : Remark line
  | hash {lead text : List Char} (lead_spaces : Spaces lead) (inside : '\n' ∉ text) :
      Remark (lead ++ '#' :: text)

/-- A text that writes jobs one a line, with remarks between them. -/
inductive Written : List Job → List Char → Prop
  | nil : Written [] []
  | remark {jobs : List Job} {line ending text : List Char} (remark : Remark line)
      (ends : LineEnd ending) (rest : Written jobs text) : Written jobs (line ++ (ending ++ text))
  | job {job : Job} {jobs : List Job} {line ending text : List Char} (line_job : JobLine job line)
      (ends : LineEnd ending) (rest : Written jobs text) :
      Written (job :: jobs) (line ++ (ending ++ text))

end Workload

/-! Numerals. -/
namespace Text
variable {v : Int} {word : List Char}

theorem isDigit_of_mem_digits {zeros n : Nat} {c : Char} (member : c ∈ digits zeros n) :
    c.isDigit = true := by
  rcases List.mem_append.1 member with zero | digit
  · rw [(List.mem_replicate.1 zero).2]
    rfl
  · exact Nat.isDigit_of_mem_toDigits (by decide) (by decide) digit

theorem digits_ne_nil (zeros n : Nat) : digits zeros n ≠ [] :=
  List.append_ne_nil_of_right_ne_nil _ Nat.toDigits_ne_nil

theorem natural?_digits (zeros n : Nat) : natural? (digits zeros n) = some n := by
  have all : (digits zeros n).all (·.isDigit) = true :=
    List.all_eq_true.2 fun c member => isDigit_of_mem_digits member
  have value : Nat.ofDigitChars 10 (digits zeros n) 0 = n := by
    rw [digits, Nat.ofDigitChars_append, Nat.ofDigitChars_replicate_zero, Nat.mul_zero,
      Nat.ofDigitChars_toDigits] <;> decide
  simp [natural?, all, value, digits_ne_nil]

/-- Digits are signs of nothing else. -/
theorem ne_of_mem_digits {zeros n : Nat} {c : Char} (member : c ∈ digits zeros n) :
    c ≠ '+' ∧ c ≠ '-' ∧ c ≠ '#' ∧ isBlank c = false := by
  have digit := Char.isDigit_iff_toNat.1 (isDigit_of_mem_digits member)
  refine ⟨?_, ?_, ?_, ?_⟩
  · rintro rfl
    exact absurd digit (by decide)
  · rintro rfl
    exact absurd digit (by decide)
  · rintro rfl
    exact absurd digit (by decide)
  · have range : 48 ≤ c.toNat ∧ c.toNat ≤ 57 := digit
    simp [isBlank, inRanges, blankRanges]
    omega

theorem Numeral.integer?_eq (numeral : Numeral v word) : integer? word = some v := by
  cases numeral with
  | plain zeros n =>
    have value := natural?_digits zeros n
    have signless := fun c => @ne_of_mem_digits zeros n c
    unfold integer?
    split
    next eq => exact absurd rfl (signless '+' (eq ▸ List.mem_cons_self)).1
    next eq => exact absurd rfl (signless '-' (eq ▸ List.mem_cons_self)).2.1
    next => simp [value]
  | plus zeros n => simp [integer?, natural?_digits]
  | minus zeros n => simp [integer?, natural?_digits]

theorem Numeral.int64?_eq (numeral : Numeral v word) (fits : fitsInt64 v = true) :
    int64? word = some v := by
  rw [int64?, numeral.integer?_eq, Option.filter_some, if_pos fits]

/-- A numeral is a word that begins no remark. -/
theorem Numeral.solid (numeral : Numeral v word) : Solid word ∧ word.head? ≠ some '#' := by
  have no_hash : ∀ zeros n, (digits zeros n).head? ≠ some '#' := fun zeros n first =>
    (ne_of_mem_digits (List.mem_of_mem_head? first)).2.2.1 rfl
  have no_blank : ∀ zeros n, ∀ c ∈ digits zeros n, isBlank c = false := fun zeros n c member =>
    (ne_of_mem_digits member).2.2.2
  cases numeral with
  | plain zeros n => exact ⟨⟨digits_ne_nil zeros n, no_blank zeros n⟩, no_hash zeros n⟩
  | plus zeros n =>
    exact ⟨⟨List.cons_ne_nil _ _, List.forall_mem_cons.2 ⟨by decide, no_blank zeros n⟩⟩, by simp⟩
  | minus zeros n =>
    exact ⟨⟨List.cons_ne_nil _ _, List.forall_mem_cons.2 ⟨by decide, no_blank zeros n⟩⟩, by simp⟩

/-- An integer is shown by a numeral. -/
theorem numeral_repr (v : Int) : Numeral v v.repr.toList := by
  cases v with
  | ofNat n =>
    have shown : (Int.ofNat n).repr.toList = digits 0 n := String.toList_ofList
    rw [shown]
    exact .plain 0 n
  | negSucc n =>
    have shown : (Int.negSucc n).repr.toList = '-' :: digits 0 (n + 1) := by
      show ("-" ++ (n + 1).repr).toList = _
      rw [String.toList_append]
      exact congrArg ('-' :: ·) String.toList_ofList
    rw [shown]
    exact .minus 0 (n + 1)

/-! Words of a line. -/

theorem gap_space : Gap [' '] := by
  decide

theorem Spaces.blank {text : List Char} (spaces : Spaces text) : Blank text :=
  fun c member => (spaces c member).1

theorem Gap.apart {gap : List Char} (gap_spaces : Gap gap) (rest : List Char) :
    Apart (gap ++ rest) := by
  obtain ⟨some_space, spaces⟩ := gap_spaces
  cases gap with
  | nil => exact absurd rfl some_space
  | cons c gap =>
    intro d first
    obtain rfl : c = d := Option.some.inj first
    exact (spaces c List.mem_cons_self).1

/-- A word, a gap and what comes behind it. -/
theorem words_field {gap : List Char} (solid : Solid word) (gap_spaces : Gap gap)
    (rest : List Char) : words (word ++ (gap ++ rest)) = word :: words rest := by
  rw [words_solid_append solid (gap_spaces.apart rest),
    words_blank_append gap_spaces.2.blank]

end Text

namespace Workload
variable {job : Job} {line text : List Char}

/-- What is behind a burst is parted from it and names the priority, unless that is zero. -/
theorem Tail.words {priority : Int} {tail : List Char} (written : Tail priority tail) :
    Text.Apart tail ∧ ((priority = 0 ∧ Text.words tail = []) ∨
      ∃ word more, Numeral priority word ∧ Text.words tail = word :: more) := by
  cases written with
  | @omitted trail spaces =>
    refine ⟨fun c first => (spaces c (List.mem_of_mem_head? first)).1, .inl ⟨rfl, ?_⟩⟩
    exact Text.words_of_blank spaces.blank
  | @written priority gap word rest gap_spaces numeral apart inside =>
    refine ⟨gap_spaces.apart _, .inr ⟨word, Text.words rest, numeral, ?_⟩⟩
    rw [Text.words_blank_append gap_spaces.2.blank, Text.words_solid_append numeral.solid.1 apart]

theorem jobOf_describable (fits : Describable job) :
    jobOf job.pid job.arrival job.burst job.priority = .ok job := by
  obtain ⟨pid, arrival, burst_pos, burst, -⟩ := fits
  have arrival_pos : ¬ (job.arrival : Int) < 0 := by omega
  have some_burst : job.burst ≠ 0 := by omega
  simp [jobOf, pid, arrival_pos, some_burst, Int.not_lt.2 arrival, Int.not_lt.2 burst]

theorem fitsInt64_of_fitsInt32 {v : Int} (fits : fitsInt32 v = true) : fitsInt64 v = true := by
  simp only [fitsInt32, fitsInt64, Bool.and_eq_true, decide_eq_true_eq] at fits ⊢
  have le : v ≤ 0x7FFFFFFF := fits.2
  omega

theorem fitsInt64_of_le {n : Nat} (le : n ≤ maxInt32) : fitsInt64 n = true := by
  simp only [fitsInt64, Bool.and_eq_true, decide_eq_true_eq]
  have le' : (n : Int) ≤ 0x7FFFFFFF := le
  omega

/-- A line that describes a job says that job. -/
theorem JobLine.readLine_eq (described : JobLine job line) (fits : Describable job) :
    readLine line = some (.ok job) := by
  obtain @⟨lead, pid, gap, arrival, gap', burst, tail, lead_spaces, pid_numeral, gap_spaces,
    arrival_numeral, gap_spaces', burst_numeral, tail_written⟩ := described
  obtain ⟨apart, priority⟩ := tail_written.words
  have words : Text.words (lead ++ (pid ++ (gap ++ (arrival ++ (gap' ++ (burst ++ tail)))))) =
      pid :: arrival :: burst :: Text.words tail := by
    rw [Text.words_blank_append lead_spaces.blank, Text.words_field pid_numeral.solid.1 gap_spaces,
      Text.words_field arrival_numeral.solid.1 gap_spaces',
      Text.words_solid_append burst_numeral.solid.1 apart]
  have pid_read := pid_numeral.int64?_eq (fitsInt64_of_fitsInt32 fits.pid)
  have arrival_read := arrival_numeral.int64?_eq (fitsInt64_of_le fits.arrival)
  have burst_read := burst_numeral.int64?_eq (fitsInt64_of_le fits.burst)
  have priority_read : ((numberAt? (pid :: arrival :: burst :: Text.words tail) 3).filter
      fitsInt32).getD 0 = job.priority := by
    rcases priority with ⟨zero, none_left⟩ | ⟨word, more, numeral, named⟩
    · simp [numberAt?, none_left, zero]
    · have read := numeral.int64?_eq (fitsInt64_of_fitsInt32 fits.priority)
      simp [numberAt?, named, read, Option.filter_some, fits.priority]
  have whole : readWords (pid :: arrival :: burst :: Text.words tail) = .ok job := by
    simp only [readWords, priority_read]
    simp [numberAt?, pid_read, arrival_read, burst_read, jobOf_describable fits]
  rw [readLine_eq, words, saying, if_neg pid_numeral.solid.2, whole]

theorem Remark.silent (remark : Remark line) : Silent line := by
  cases remark with
  | blank spaces => exact .blank spaces.blank
  | hash lead_spaces inside => exact .hash lead_spaces.blank

/-! Lines of a text. -/

theorem newline_not_mem_of_spaces {spaces : List Char} (h : Spaces spaces) : '\n' ∉ spaces :=
  fun member => (h '\n' member).2 rfl

theorem newline_not_mem_of_numeral {v : Int} {word : List Char} (numeral : Numeral v word) :
    '\n' ∉ word := by
  intro member
  have solid := numeral.solid.1.2 '\n' member
  revert solid
  decide

theorem Tail.newline_not_mem {priority : Int} {tail : List Char} (written : Tail priority tail) :
    '\n' ∉ tail := by
  cases written with
  | omitted spaces => exact newline_not_mem_of_spaces spaces
  | written gap_spaces numeral apart inside =>
    simp [newline_not_mem_of_spaces gap_spaces.2, newline_not_mem_of_numeral numeral, inside]

theorem JobLine.newline_not_mem (described : JobLine job line) : '\n' ∉ line := by
  cases described with
  | mk lead_spaces pid_numeral gap_spaces arrival_numeral gap_spaces' burst_numeral tail_written =>
    simp [newline_not_mem_of_spaces lead_spaces, newline_not_mem_of_numeral pid_numeral,
      newline_not_mem_of_spaces gap_spaces.2, newline_not_mem_of_numeral arrival_numeral,
      newline_not_mem_of_spaces gap_spaces'.2, newline_not_mem_of_numeral burst_numeral,
      tail_written.newline_not_mem]

theorem Remark.newline_not_mem (remark : Remark line) : '\n' ∉ line := by
  cases remark with
  | blank spaces => exact newline_not_mem_of_spaces spaces
  | hash lead_spaces inside => simp [newline_not_mem_of_spaces lead_spaces, inside]

/-- A line and its ending say what the line says. -/
theorem said_line {ending : List Char} (inside : '\n' ∉ line) (ends : LineEnd ending)
    (text : List Char) : said (line ++ (ending ++ text)) = (readLine line).toList ++ said text := by
  cases ends with
  | newline =>
    rw [← said_of_line inside]
    exact said_append_newline line text
  | returned =>
    have inside' : '\n' ∉ line ++ ['\r'] := by simp [inside]
    rw [← readLine_append_return, ← said_of_line inside', ← said_append_newline, List.append_assoc]
    rfl

/-- A text that writes jobs says them, in order. -/
theorem Written.said_eq {jobs : List Job} (written : Written jobs text)
    (fits : ∀ job ∈ jobs, Describable job) : said text = jobs.map Except.ok := by
  induction written with
  | nil => rfl
  | remark remark ends _ ih =>
    rw [said_line remark.newline_not_mem ends, remark.silent.readLine_eq, ih fits]
    rfl
  | job described ends _ ih =>
    obtain ⟨first, others⟩ := List.forall_mem_cons.1 fits
    rw [said_line described.newline_not_mem ends, described.readLine_eq first, ih others]
    rfl

/-- A text that writes jobs one a line is read as these jobs in their order, and no line of it is
skipped. -/
theorem ofText_written {jobs : List Job} (fits : ∀ job ∈ jobs, Describable job)
    (written : Written jobs text) : (ofText text).jobs = jobs ∧ (ofText text).skipped = 0 := by
  rw [jobs_ofText, skipped_ofText, written.said_eq fits]
  constructor
  · simp [List.filterMap_map, Function.comp_def, Except.toOption]
  · simp [Except.isOk, Except.toBool]

/-- A remark, a job at the ends of the ranges with a word behind it, an empty line, and a job whose
priority is left out. -/
def spacedText : List Char :=
  "# late\r\n\t-3\u30000 2147483647\u00A0-2147483648 #x\r\n\n 7 1 +5 \n".toList

theorem ofText_written_spaced :
    let jobs : List Job := [⟨-3, 0, 2147483647, -2147483648⟩, ⟨7, 1, 5, 0⟩]
    (∀ job ∈ jobs, Describable job) ∧ Written jobs spacedText ∧
      (ofText spacedText).jobs = jobs ∧ (ofText spacedText).skipped = 0 := by
  intro jobs
  have fits : ∀ job ∈ jobs, Describable job := by
    refine List.forall_mem_cons.2 ⟨?_, List.forall_mem_singleton.2 ?_⟩ <;> constructor <;> decide
  have space : Gap [' '] := Text.gap_space
  have remark : Remark ('#' :: " late".toList) := .hash (by decide : Spaces []) (by decide)
  have first : JobLine ⟨-3, 0, 2147483647, -2147483648⟩ _ :=
    .mk (by decide : Spaces ['\t']) (.minus 0 3) (by decide : Gap ['\u3000']) (.plain 0 0) space
      (.plain 0 2147483647) (.written (by decide : Gap ['\u00A0']) (.minus 0 2147483648)
        (by decide : Text.Apart " #x".toList) (by decide))
  have second : JobLine ⟨7, 1, 5, 0⟩ _ :=
    .mk space.2 (.plain 0 7) space (.plain 0 1) space (.plus 0 5) (.omitted space.2)
  have blank : Remark [] := .blank (by decide)
  have written : Written jobs spacedText := by
    have lines : Written jobs _ :=
      .remark remark .returned (.job first .returned (.remark blank .newline
        (.job second .newline .nil)))
    exact lines
  exact ⟨fits, written, ofText_written fits written⟩

end Workload
end CpuScheduling
