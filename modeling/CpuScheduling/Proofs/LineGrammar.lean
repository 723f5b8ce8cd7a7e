import CpuScheduling.Proofs.WrittenWorkload
import Mathlib.Algebra.Group.Int.Defs
import Mathlib.Algebra.Group.Nat.Defs
import Mathlib.Data.List.Induction
/-!
The grammar of a line. Every text has its words in one way, every numeral is digits behind at most
one sign, and what a line says is one of seven outcomes, of which the first that applies counts.
-/
namespace CpuScheduling

/-- What a signed word of `bits` bits holds. -/
def Signed (bits : Nat) (v : Int) : Prop := -2 ^ (bits - 1) ≤ v ∧ v < 2 ^ (bits - 1)

theorem fitsInt32_iff {v : Int} : fitsInt32 v = true ↔ Signed 32 v := by
  have top : v ≤ maxInt32 ↔ v < 2 ^ 31 := by
    show v ≤ 0x7FFFFFFF ↔ v < 2 ^ 31
    omega
  simp only [fitsInt32, Bool.and_eq_true, decide_eq_true_eq, Signed, top, Nat.reduceSub,
    Int.reducePow]

theorem fitsInt64_iff {v : Int} : fitsInt64 v = true ↔ Signed 64 v := by
  simp only [fitsInt64, Bool.and_eq_true, decide_eq_true_eq, Signed, Nat.reduceSub,
    Int.reducePow]
  omega

namespace Text
variable {v : Int} {text word rest : List Char}

/-! Numerals. -/

theorem exists_digitChar {c : Char} (digit : c.isDigit = true) : ∃ d < 10, c = Nat.digitChar d := by
  obtain ⟨low, high⟩ : 48 ≤ c.toNat ∧ c.toNat ≤ 57 := Char.isDigit_iff_toNat.1 digit
  refine ⟨c.toNat - 48, by omega, Char.toNat_inj.1 ?_⟩
  rw [Nat.toNat_digitChar_of_lt_ten (by omega)]
  omega

/-- One or more digits write a number, perhaps behind zeros. -/
theorem exists_digits (some_digit : text ≠ []) (all : ∀ c ∈ text, c.isDigit = true) :
    ∃ zeros n, text = digits zeros n := by
  induction text using List.reverseRecOn with
  | nil => exact absurd rfl some_digit
  | append_singleton text c ih =>
    obtain ⟨d, small, rfl⟩ := exists_digitChar (all c (by simp))
    have last : [Nat.digitChar d] = Nat.toDigits 10 d := (Nat.toDigits_of_lt_base small).symm
    by_cases first : text = []
    · exact ⟨0, d, by rw [first, last]; rfl⟩
    obtain ⟨zeros, n, rfl⟩ := ih first fun c member => all c (List.mem_append_left _ member)
    -- A zero before the last digit counts among the zeros, and has no digits of its own.
    rcases Nat.eq_zero_or_pos n with rfl | pos
    · refine ⟨zeros + 1, d, ?_⟩
      rw [digits, Nat.toDigits_zero, last, digits, List.replicate_succ']
    · refine ⟨zeros, 10 * n + d, ?_⟩
      rw [digits, last, List.append_assoc, Nat.toDigits_append_toDigits (by decide) pos small,
        digits]

theorem natural?_eq_some_iff {n : Nat} :
    natural? text = some n ↔ ∃ zeros, text = digits zeros n := by
  constructor
  · intro read
    have proper : text ≠ [] ∧ ∀ c ∈ text, c.isDigit = true := by
      by_contra bad
      have refused : natural? text = none := if_pos (by
        rw [Bool.or_eq_true, List.isEmpty_iff, Bool.not_eq_true', List.all_eq_false]
        simpa [or_iff_not_imp_left] using bad)
      rw [refused] at read
      exact absurd read (by simp)
    obtain ⟨zeros, k, rfl⟩ := exists_digits proper.1 proper.2
    rw [natural?_digits] at read
    exact ⟨zeros, by rw [Option.some.inj read]⟩
  · rintro ⟨zeros, rfl⟩
    exact natural?_digits zeros n

theorem integer?_eq_some_iff : integer? word = some v ↔ Numeral v word := by
  refine ⟨fun read => ?_, Numeral.integer?_eq⟩
  unfold integer? at read
  split at read <;>
    simp only [Option.map_eq_some_iff, Option.bind_eq_bind, Option.bind_eq_some_iff,
      Option.pure_def, Option.some.injEq, natural?_eq_some_iff] at read <;>
    obtain ⟨_, ⟨n, ⟨zeros, rfl⟩, rfl⟩, rfl⟩ := read
  · exact .plus zeros n
  · exact .minus zeros n
  · exact .plain zeros n

/-- The numerals are the words of one or more digits behind at most one sign. -/
theorem exists_numeral_iff : (∃ v, Numeral v word) ↔
    ∃ sign ∈ [[], ['+'], ['-']], ∃ text, text ≠ [] ∧ (∀ c ∈ text, c.isDigit = true) ∧
      word = sign ++ text := by
  have proper : ∀ zeros n, digits zeros n ≠ [] ∧ ∀ c ∈ digits zeros n, c.isDigit = true :=
    fun zeros n => ⟨digits_ne_nil zeros n, fun _ => isDigit_of_mem_digits⟩
  constructor
  · rintro ⟨v, numeral⟩
    cases numeral with
    | plain zeros n => exact ⟨[], by simp, _, (proper zeros n).1, (proper zeros n).2, rfl⟩
    | plus zeros n => exact ⟨['+'], by simp, _, (proper zeros n).1, (proper zeros n).2, rfl⟩
    | minus zeros n => exact ⟨['-'], by simp, _, (proper zeros n).1, (proper zeros n).2, rfl⟩
  · rintro ⟨sign, signs, text, some_digit, all, rfl⟩
    obtain ⟨zeros, n, rfl⟩ := exists_digits some_digit all
    simp only [List.mem_cons, List.not_mem_nil, or_false] at signs
    rcases signs with rfl | rfl | rfl
    · exact ⟨n, .plain zeros n⟩
    · exact ⟨n, .plus zeros n⟩
    · exact ⟨-n, .minus zeros n⟩

/-! Words. -/

/-- A text and its words: blanks before each, a break behind each, and nothing but blanks after the
last. -/
inductive Parted : List (List Char) → List Char → Prop
  | nil {text : List Char} (blank : Blank text) : Parted [] text
  | cons {words : List (List Char)} {lead word rest : List Char} (blank : Blank lead)
      (solid : Solid word) (apart : Apart rest) (others : Parted words rest) :
      Parted (word :: words) (lead ++ (word ++ rest))

theorem Parted.words_eq {words : List (List Char)} (parted : Parted words text) :
    Text.words text = words := by
  induction parted with
  | nil blank => exact words_of_blank blank
  | cons blank solid apart _ ih => rw [words_blank_append blank, words_solid_append solid apart, ih]

/-- Every text is made of its words. -/
theorem parted_words (text : List Char) : Parted (words text) text := by
  obtain ⟨lead, blank, whole⟩ := eq_blank_append_trimLeft text
  cases trimmed : trimLeft text with
  | nil =>
    rw [trimmed, List.append_nil] at whole
    rw [whole, words_of_blank blank]
    exact .nil blank
  | cons c more =>
    have first : (trimLeft text).head? = some c := by rw [trimmed, List.head?_cons]
    have solid := solid_of_head?_trimLeft first
    obtain ⟨word, rest, proper, apart, split⟩ := exists_word solid more
    have shorter : rest.length < text.length := by
      have some_char := List.length_pos_iff.2 proper.1
      rw [whole, trimmed, split]
      simp only [List.length_append]
      omega
    rw [whole, trimmed, split, words_blank_append blank, words_solid_append proper apart]
    exact .cons blank proper apart (parted_words rest)
termination_by text.length

theorem words_eq_iff {words : List (List Char)} : Text.words text = words ↔ Parted words text :=
  ⟨fun eq => eq ▸ parted_words text, Parted.words_eq⟩

end Text

open Text (Numeral Parted)

namespace Workload

/-- The number that a line has at a place among its words. -/
def Field (words : List (List Char)) (place : Nat) (v : Int) : Prop :=
  ∃ word, words[place]? = some word ∧ Numeral v word ∧ Signed 64 v

/-- The priority of a job: the fourth number if it fits, else zero. -/
inductive Priority (words : List (List Char)) : Int → Prop
  | written {v : Int} (field : Field words 3 v) (fits : Signed 32 v) : Priority words v
  | other (unfit : ∀ v, Field words 3 v → ¬ Signed 32 v) : Priority words 0

/-- What three numbers and the words behind them describe. Of the outcomes the first counts whose
condition holds, since each presupposes that those before it fail. -/
inductive Judged (words : List (List Char)) (pid arrival burst : Int) : Except LineFault Job → Prop
  | pidOutOfRange (unfit : ¬ Signed 32 pid) :
      Judged words pid arrival burst (.error (.pidOutOfRange pid))
  | negativeArrival (fits : Signed 32 pid) (negative : arrival < 0) :
      Judged words pid arrival burst (.error (.negativeArrival arrival))
  | arrivalOutOfRange (fits : Signed 32 pid) (late : 2 ^ 31 - 1 < arrival) :
      Judged words pid arrival burst (.error (.arrivalOutOfRange arrival))
  | nonPositiveBurst (fits : Signed 32 pid) (arrives : 0 ≤ arrival ∧ arrival ≤ 2 ^ 31 - 1)
      (nothing : burst ≤ 0) : Judged words pid arrival burst (.error (.nonPositiveBurst burst))
  | burstOutOfRange (fits : Signed 32 pid) (arrives : 0 ≤ arrival ∧ arrival ≤ 2 ^ 31 - 1)
      (long : 2 ^ 31 - 1 < burst) : Judged words pid arrival burst (.error (.burstOutOfRange burst))
  | job {arrives works : Nat} {priority : Int} (fits : Signed 32 pid)
      (arrival_eq : arrival = arrives) (early : arrives ≤ 2 ^ 31 - 1) (burst_eq : burst = works)
      (works_pos : 1 ≤ works) (short : works ≤ 2 ^ 31 - 1) (field : Priority words priority) :
      Judged words pid arrival burst (.ok ⟨pid, arrives, works, priority⟩)

/-- What a line of words describes. -/
inductive Described (words : List (List Char)) : Except LineFault Job → Prop
  | missing {place : Nat} (needed : place < 3) (absent : ∀ v, ¬ Field words place v) :
      Described words (.error .missingFields)
  | judged {pid arrival burst : Int} {outcome : Except LineFault Job}
      (pid_field : Field words 0 pid) (arrival_field : Field words 1 arrival)
      (burst_field : Field words 2 burst) (judged : Judged words pid arrival burst outcome) :
      Described words outcome

/-- What a line says. -/
inductive Says (line : List Char) : Option (Except LineFault Job) → Prop
  | nothing (silent : Silent line) : Says line none
  | outcome {words : List (List Char)} {outcome : Except LineFault Job} (loud : ¬ Silent line)
      (parted : Parted words line) (described : Described words outcome) : Says line (some outcome)

variable {words : List (List Char)} {line : List Char}

theorem readLine_eq_none_iff : readLine line = none ↔ Silent line := by
  refine ⟨fun read => ?_, Silent.readLine_eq⟩
  rw [readLine_eq] at read
  have parted := Text.parted_words line
  cases split : Text.words line with
  | nil =>
    rw [split] at parted
    cases parted with
    | nil blank => exact .blank blank
  | cons word more =>
    rw [split] at parted read
    have hash : word.head? = some '#' := by
      by_contra other
      rw [saying, if_neg other] at read
      exact absurd read (by simp)
    obtain ⟨text, rfl⟩ := List.head?_eq_some_iff.1 hash
    cases parted with
    | cons blank solid apart others => exact .hash blank

instance (line : List Char) : Decidable (Silent line) :=
  decidable_of_iff (readLine line = none) readLine_eq_none_iff

theorem saying_eq_or (words : List (List Char)) :
    saying words = none ∨ saying words = some (readWords words) := by
  cases words with
  | nil => exact .inl rfl
  | cons word more =>
    by_cases hash : word.head? = some '#'
    · exact .inl (if_pos hash)
    · exact .inr (if_neg hash)

/-- What a line says that is not silent. -/
theorem readLine_of_not_silent (loud : ¬ Silent line) :
    readLine line = some (readWords (Text.words line)) := by
  rw [readLine_eq]
  refine (saying_eq_or _).resolve_left ?_
  rw [← readLine_eq]
  exact mt readLine_eq_none_iff.1 loud

theorem numberAt?_eq_some_iff {place : Nat} {v : Int} :
    numberAt? words place = some v ↔ Field words place v := by
  simp only [numberAt?, Option.bind_eq_some_iff, Text.int64?, Option.filter_eq_some_iff,
    Text.integer?_eq_some_iff, fitsInt64_iff, Field]

theorem numberAt?_eq_none_iff {place : Nat} :
    numberAt? words place = none ↔ ∀ v, ¬ Field words place v := by
  simp only [Option.eq_none_iff_forall_ne_some, ne_eq, numberAt?_eq_some_iff]

/-- The priority that a line of words gives its job. -/
def priorityOf (words : List (List Char)) : Int := ((numberAt? words 3).filter fitsInt32).getD 0

theorem priority_priorityOf (words : List (List Char)) : Priority words (priorityOf words) := by
  rw [priorityOf]
  cases read : (numberAt? words 3).filter fitsInt32 with
  | none =>
    refine .other fun v field fits => ?_
    rw [numberAt?_eq_some_iff.2 field, Option.filter_some, if_pos (fitsInt32_iff.2 fits)] at read
    exact absurd read (by simp)
  | some v =>
    obtain ⟨number, fits⟩ := Option.filter_eq_some_iff.1 read
    exact .written (numberAt?_eq_some_iff.1 number) (fitsInt32_iff.1 fits)

theorem Priority.eq_priorityOf {v : Int} (field : Priority words v) : v = priorityOf words := by
  cases field with
  | written field fits =>
    rw [priorityOf, numberAt?_eq_some_iff.2 field, Option.filter_some,
      if_pos (fitsInt32_iff.2 fits), Option.getD_some]
  | other unfit =>
    have none_fits : (numberAt? words 3).filter fitsInt32 = none := by
      refine Option.filter_eq_none_iff.2 fun v read fits => ?_
      exact unfit v (numberAt?_eq_some_iff.1 read) (fitsInt32_iff.1 fits)
    rw [priorityOf, none_fits, Option.getD_none]

variable {pid arrival burst : Int} {outcome : Except LineFault Job}

theorem jobOf_of_fits {priority : Int} (fits : Signed 32 pid) : jobOf pid arrival burst priority =
    if arrival < 0 then .error (.negativeArrival arrival)
    else if 2 ^ 31 - 1 < arrival then .error (.arrivalOutOfRange arrival)
    else if burst ≤ 0 then .error (.nonPositiveBurst burst)
    else if 2 ^ 31 - 1 < burst then .error (.burstOutOfRange burst)
    else .ok ⟨pid, arrival.toNat, burst.toNat, priority⟩ := by
  rw [jobOf, fitsInt32_iff.2 fits]
  rfl

theorem jobOf_of_unfit {priority : Int} (unfit : ¬ Signed 32 pid) :
    jobOf pid arrival burst priority = .error (.pidOutOfRange pid) :=
  if_pos (by simpa [← fitsInt32_iff] using unfit)

/-- One of the outcomes applies. -/
theorem judged_jobOf (words : List (List Char)) (pid arrival burst : Int) :
    Judged words pid arrival burst (jobOf pid arrival burst (priorityOf words)) := by
  by_cases fits : Signed 32 pid
  · rw [jobOf_of_fits fits]
    split_ifs with negative late nothing long
    · exact .negativeArrival fits negative
    · exact .arrivalOutOfRange fits late
    · exact .nonPositiveBurst fits ⟨by omega, by omega⟩ nothing
    · exact .burstOutOfRange fits ⟨by omega, by omega⟩ long
    · exact .job fits (by omega) (by omega) (by omega) (by omega) (by omega)
        (priority_priorityOf words)
  · rw [jobOf_of_unfit fits]
    exact .pidOutOfRange fits

/-- No more than one of the outcomes applies. -/
theorem Judged.jobOf_eq (judged : Judged words pid arrival burst outcome) :
    jobOf pid arrival burst (priorityOf words) = outcome := by
  cases judged with
  | pidOutOfRange unfit => exact jobOf_of_unfit unfit
  | negativeArrival fits negative => rw [jobOf_of_fits fits, if_pos negative]
  | arrivalOutOfRange fits late => rw [jobOf_of_fits fits, if_neg (by omega), if_pos late]
  | nonPositiveBurst fits arrives nothing =>
    rw [jobOf_of_fits fits, if_neg (by omega), if_neg (by omega), if_pos nothing]
  | burstOutOfRange fits arrives long =>
    rw [jobOf_of_fits fits, if_neg (by omega), if_neg (by omega), if_neg (by omega), if_pos long]
  | job fits arrival_eq early burst_eq works_pos short field =>
    subst arrival_eq burst_eq
    rw [jobOf_of_fits fits, if_neg (by omega), if_neg (by omega), if_neg (by omega),
      if_neg (by omega), field.eq_priorityOf, Int.toNat_natCast, Int.toNat_natCast]

theorem described_readWords (words : List (List Char)) : Described words (readWords words) := by
  unfold readWords
  split
  next pid arrival burst pid_read arrival_read burst_read =>
    rw [numberAt?_eq_some_iff] at pid_read arrival_read burst_read
    exact .judged pid_read arrival_read burst_read (judged_jobOf words pid arrival burst)
  next unread =>
    have absent : ∃ place < 3, numberAt? words place = none := by
      by_contra all_read
      have read : ∀ place < 3, ∃ v, numberAt? words place = some v := fun place needed =>
        Option.ne_none_iff_exists'.1 fun none_read => all_read ⟨place, needed, none_read⟩
      obtain ⟨⟨pid, pid_read⟩, ⟨arrival, arrival_read⟩, burst, burst_read⟩ :=
        And.intro (read 0 (by decide)) (And.intro (read 1 (by decide)) (read 2 (by decide)))
      exact unread pid arrival burst pid_read arrival_read burst_read
    obtain ⟨place, needed, none_read⟩ := absent
    exact .missing needed (numberAt?_eq_none_iff.1 none_read)

theorem Described.readWords_eq (described : Described words outcome) :
    readWords words = outcome := by
  cases described with
  | @missing place needed absent =>
    have none_read := numberAt?_eq_none_iff.2 absent
    unfold readWords
    split
    next pid_read arrival_read burst_read =>
      have place_cases : place = 0 ∨ place = 1 ∨ place = 2 := by omega
      rcases place_cases with rfl | rfl | rfl <;> simp_all
    next => rfl
  | judged pid_field arrival_field burst_field judged =>
    rw [readWords, numberAt?_eq_some_iff.2 pid_field, numberAt?_eq_some_iff.2 arrival_field,
      numberAt?_eq_some_iff.2 burst_field]
    exact judged.jobOf_eq

theorem readLine_eq_iff {outcome : Option (Except LineFault Job)} :
    readLine line = outcome ↔ Says line outcome := by
  constructor
  · rintro rfl
    by_cases silent : Silent line
    · rw [readLine_eq_none_iff.2 silent]
      exact .nothing silent
    · rw [readLine_of_not_silent silent]
      exact .outcome silent (Text.parted_words line) (described_readWords _)
  · intro told
    cases told with
    | nothing silent => exact readLine_eq_none_iff.2 silent
    | outcome loud parted described =>
      rw [readLine_of_not_silent loud, Text.words_eq_iff.2 parted, described.readWords_eq]

theorem Described.bounds {job : Job} (described : Described words (.ok job)) :
    1 ≤ job.burst ∧ job.burst ≤ 2 ^ 31 - 1 ∧ job.arrival ≤ 2 ^ 31 - 1 := by
  cases described with
  | judged pid_field arrival_field burst_field judged =>
    cases judged with
    | job fits arrival_eq early burst_eq works_pos short field => exact ⟨works_pos, short, early⟩

/-- A line is read as the one thing that it says, where the numerals are one or more digits behind
at most one sign; and a job that it describes has a burst, and times of thirty-one bits. -/
theorem readLine_grammar (line : List Char) :
    (∀ outcome, readLine line = outcome ↔ Says line outcome) ∧
      (∀ word, (∃ v, Numeral v word) ↔ ∃ sign ∈ [[], ['+'], ['-']], ∃ text, text ≠ [] ∧
        (∀ c ∈ text, c.isDigit = true) ∧ word = sign ++ text) ∧
      ∀ job, readLine line = some (.ok job) →
        1 ≤ job.burst ∧ job.burst ≤ 2 ^ 31 - 1 ∧ job.arrival ≤ 2 ^ 31 - 1 := by
  refine ⟨fun outcome => readLine_eq_iff, fun word => Text.exists_numeral_iff, fun job read => ?_⟩
  cases readLine_eq_iff.1 read with
  | outcome loud parted described => exact described.bounds

/-- A job at the end of its range, whose fourth word is no number. -/
theorem readLine_grammar_signed :
    let line := "\t+7\u3000-0 2147483647 0x1 2".toList
    let job : Job := ⟨7, 0, 2147483647, 0⟩
    readLine line = some (.ok job) ∧ Says line (some (.ok job)) ∧
      1 ≤ job.burst ∧ job.burst ≤ 2 ^ 31 - 1 ∧ job.arrival ≤ 2 ^ 31 - 1 := by
  intro line job
  have read : readLine line = some (.ok job) := by decide +kernel
  obtain ⟨spoken, -, bounds⟩ := readLine_grammar line
  exact ⟨read, (spoken _).1 read, bounds job read⟩

end Workload
end CpuScheduling
