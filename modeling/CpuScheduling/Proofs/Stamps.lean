import CpuScheduling.Log.Stamp
import CpuScheduling.Proofs.Characters
import CpuScheduling.Proofs.LineGrammar
/-!
Stamps. The stamp of a tick shows its digits in groups of three with an underscore between groups,
behind spaces that fill a column of nine. Without its underscores a grouped number is the numeral of
the tick, so that every tick can be told from its stamp.
-/
namespace CpuScheduling

namespace Text
variable {text : List Char} {n q r width : Nat}

theorem head?_toDigits_ne_zero (pos : 0 < n) : (Nat.toDigits 10 n).head? ≠ some '0' := by
  induction n using Nat.strongRecOn with
  | ind n ih =>
    rw [Nat.toDigits_eq_if (by decide)]
    split
    next small =>
      intro zero
      have code := congrArg Char.toNat (Option.some.inj zero)
      rw [Nat.toNat_digitChar_of_lt_ten small] at code
      exact absurd code (Nat.ne_of_gt (Nat.lt_add_of_pos_right pos))
    next large =>
      rw [List.head?_append_of_ne_nil _ Nat.toDigits_ne_nil]
      exact ih (n / 10) (by omega) (by omega)

/-- Digits without a zero before them are the numeral of their value. -/
theorem toDigits_ofDigitChars (some_digit : text ≠ []) (all : ∀ c ∈ text, c.isDigit = true)
    (no_zero : text.head? ≠ some '0') : Nat.toDigits 10 (Nat.ofDigitChars 10 text 0) = text := by
  obtain ⟨zeros, n, rfl⟩ := exists_digits some_digit all
  cases zeros with
  | zero => simp [digits, Nat.ofDigitChars_ten_toDigits]
  | succ zeros => exact absurd rfl no_zero

theorem isDigit_of_mem_leftpad {c : Char} (member : c ∈ (Nat.toDigits 10 n).leftpad width '0') :
    c.isDigit = true :=
  isDigit_of_mem_digits (show c ∈ digits (width - (Nat.toDigits 10 n).length) n from member)

/-- Last digits, filled up with zeros, behind those of the rest of a number. -/
theorem toDigits_append_leftpad (pos : 0 < q) (wide : 0 < width) (below : r < 10 ^ width) :
    Nat.toDigits 10 q ++ (Nat.toDigits 10 r).leftpad width '0' =
      Nat.toDigits 10 (10 ^ width * q + r) := by
  have short : (Nat.toDigits 10 r).length ≤ width :=
    (Nat.length_toDigits_le_iff (by decide) wide).2 below
  have value : Nat.ofDigitChars 10
      (Nat.toDigits 10 q ++ (Nat.toDigits 10 r).leftpad width '0') 0 = 10 ^ width * q + r := by
    rw [Nat.ofDigitChars_append, Nat.ofDigitChars_ten_toDigits,
      Nat.ofDigitChars_eq_ofDigitChars_zero, List.length_leftpad, Nat.max_eq_left short,
      List.leftpad, Nat.ofDigitChars_append, Nat.ofDigitChars_replicate_zero, Nat.mul_zero,
      Nat.ofDigitChars_ten_toDigits]
  rw [← value, toDigits_ofDigitChars]
  · exact List.append_ne_nil_of_left_ne_nil Nat.toDigits_ne_nil _
  · exact List.forall_mem_append.2
      ⟨fun c => isDigit_of_mem_toDigits, fun c => isDigit_of_mem_leftpad⟩
  · rw [List.head?_append_of_ne_nil _ Nat.toDigits_ne_nil]
    exact head?_toDigits_ne_zero pos

end Text

namespace Log
variable {first group text number : List Char} {groups : List (List Char)} {n tick : Nat}

/-- The groups of a number: a first one of one to three digits, without a zero that could be left
out, and others of exactly three. -/
structure Grouped (first : List Char) (groups : List (List Char)) : Prop where
  first_length : 1 ≤ first.length ∧ first.length ≤ 3
  length_eq : ∀ group ∈ groups, group.length = 3
  digits : ∀ group ∈ first :: groups, ∀ c ∈ group, c.isDigit = true
  no_zero : first.head? = some '0' → first = ['0'] ∧ groups = []

/-- One underscore between groups. -/
def joined (first : List Char) (groups : List (List Char)) : List Char :=
  first ++ groups.flatMap ('_' :: ·)

theorem joined_concat (first : List Char) (groups : List (List Char)) (group : List Char) :
    joined first (groups ++ [group]) = joined first groups ++ '_' :: group := by
  rw [joined, joined, List.flatMap_append, List.flatMap_singleton, List.append_assoc]

theorem grouped_small (small : tick < 1000) : Grouped (Nat.toDigits 10 tick) [] where
  first_length := ⟨Nat.length_toDigits_pos,
    (Nat.length_toDigits_le_iff (by decide) (by decide)).2 small⟩
  length_eq := nofun
  digits := List.forall_mem_singleton.2 fun c => Text.isDigit_of_mem_toDigits
  no_zero zero := by
    rcases Nat.eq_zero_or_pos tick with rfl | pos
    · exact ⟨rfl, rfl⟩
    · exact absurd zero (Text.head?_toDigits_ne_zero pos)

theorem Grouped.concat (grouped : Grouped first groups) (no_zero : first.head? ≠ some '0')
    (length_eq : group.length = 3) (digits : ∀ c ∈ group, c.isDigit = true) :
    Grouped first (groups ++ [group]) where
  first_length := grouped.first_length
  length_eq := List.forall_mem_append.2 ⟨grouped.length_eq, List.forall_mem_singleton.2 length_eq⟩
  digits := by
    rw [← List.cons_append]
    exact List.forall_mem_append.2 ⟨grouped.digits, List.forall_mem_singleton.2 digits⟩
  no_zero zero := absurd zero no_zero

/-- Whatever keeps the digits and drops the underscores leaves the groups alone. -/
theorem Grouped.filter_joined (grouped : Grouped first groups) {keep : Char → Bool}
    (digit : ∀ c : Char, c.isDigit = true → keep c = true) (underscore : keep '_' = false) :
    (joined first groups).filter keep = first ++ groups.flatten := by
  obtain ⟨in_first, in_groups⟩ := List.forall_mem_cons.1 grouped.digits
  have kept : ∀ group ∈ groups, ('_' :: group).filter keep = group := by
    intro group member
    rw [List.filter_cons_of_neg (Bool.eq_false_iff.1 underscore)]
    exact List.filter_eq_self.2 fun c inside => digit c (in_groups group member c inside)
  have in_all : (groups.map fun group => ('_' :: group).filter keep) = groups :=
    (List.map_congr_left kept).trans (List.map_id groups)
  rw [joined, List.filter_append, List.filter_eq_self.2 fun c inside => digit c (in_first c inside),
    List.filter_flatMap, List.flatMap_def, in_all]

/-- A text shows the digits of a number in groups. -/
def InGroups (text number : List Char) : Prop :=
  ∃ first groups, Grouped first groups ∧ joined first groups = text ∧
    first ++ groups.flatten = number

theorem inGroups_of_small (small : tick < 1000) :
    InGroups (Nat.toDigits 10 tick) (Nat.toDigits 10 tick) :=
  ⟨_, [], grouped_small small, List.append_nil _, List.append_nil _⟩

theorem InGroups.concat (shown : InGroups text number) (no_zero : number.head? ≠ some '0')
    (length_eq : group.length = 3) (digits : ∀ c ∈ group, c.isDigit = true) :
    InGroups (text ++ '_' :: group) (number ++ group) := by
  obtain ⟨first, groups, grouped, rfl, rfl⟩ := shown
  have begins : (first ++ groups.flatten).head? = first.head? :=
    List.head?_append_of_ne_nil _ (List.length_pos_iff.1 grouped.first_length.1)
  refine ⟨first, groups ++ [group], grouped.concat (begins ▸ no_zero) length_eq digits,
    joined_concat first groups group, ?_⟩
  rw [List.flatten_append, List.flatten_singleton, List.append_assoc]

theorem inGroups_thousandsDigits (within : tick < 1000 ^ (n + 1)) :
    InGroups (thousandsDigits n tick) (Nat.toDigits 10 tick) := by
  induction n generalizing tick with
  | zero => exact inGroups_of_small within
  | succ n ih =>
    rw [thousandsDigits]
    split
    next small => exact inGroups_of_small small
    next large =>
      have pos : 0 < tick / 1000 := Nat.div_pos (Nat.le_of_not_lt large) (by decide)
      have fewer : tick / 1000 < 1000 ^ (n + 1) := Nat.div_lt_of_lt_mul (Nat.pow_succ' ▸ within)
      have last : tick % 1000 < 10 ^ 3 := Nat.mod_lt _ (by decide)
      have length_eq : ((Nat.toDigits 10 (tick % 1000)).leftpad 3 '0').length = 3 := by
        rw [List.length_leftpad,
          Nat.max_eq_left ((Nat.length_toDigits_le_iff (by decide) (by decide)).2 last)]
      have whole : Nat.toDigits 10 (tick / 1000) ++ (Nat.toDigits 10 (tick % 1000)).leftpad 3 '0' =
          Nat.toDigits 10 tick :=
        (Text.toDigits_append_leftpad pos (by decide) last).trans
          (congrArg _ (Nat.div_add_mod tick 1000))
      rw [← whole]
      exact (ih fewer).concat (Text.head?_toDigits_ne_zero pos) length_eq
        fun c => Text.isDigit_of_mem_leftpad

theorem toList_stamp (tick : Nat) : (stamp (some tick)).toList =
    List.replicate (9 - (thousandsDigits tick tick).length) ' ' ++ thousandsDigits tick tick ++
      [':', 'T'] := by
  rw [stamp, String.toList_append, Text.toList_padLeft, inThousands, String.toList_ofList]
  rfl

/-- As many groups as the tick counts are always enough. -/
theorem inGroups_stamped (tick : Nat) :
    InGroups (thousandsDigits tick tick) (Nat.toDigits 10 tick) :=
  inGroups_thousandsDigits ((Nat.lt_succ_self tick).trans (Nat.lt_pow_self (by decide)))

/-- The digits of a stamp are those of its tick. -/
theorem filter_isDigit_stamp (shown : Option Nat) :
    (stamp shown).toList.filter (·.isDigit) = shown.elim [] (Nat.toDigits 10) := by
  cases shown with
  | none => decide
  | some tick =>
    obtain ⟨first, groups, grouped, joined_eq, all⟩ := inGroups_stamped tick
    rw [toList_stamp, ← joined_eq, List.filter_append, List.filter_append,
      List.filter_replicate_of_neg (by decide), grouped.filter_joined (fun _ digit => digit) rfl,
      all]
    exact List.append_nil _

theorem stamp_injective : Function.Injective stamp := by
  intro shown shown' same
  have digits := filter_isDigit_stamp shown
  rw [same, filter_isDigit_stamp] at digits
  cases shown with
  | none =>
    cases shown' with
    | none => rfl
    | some tick => exact absurd digits Nat.toDigits_ne_nil
  | some tick =>
    cases shown' with
    | none => exact absurd digits.symm Nat.toDigits_ne_nil
    | some tick' =>
      have value := congrArg (fun text => Nat.ofDigitChars 10 text 0) digits
      simp only [Option.elim_some, Nat.ofDigitChars_ten_toDigits] at value
      rw [value]

/-- The stamp of a tick is its number in groups of three digits behind spaces that fill a column of
nine, and without the underscores the number is the decimal numeral of the tick. So no two stamps
are the same, that of no tick included. -/
theorem stamp_in_groups :
    (∀ tick, ∃ first groups, Grouped first groups ∧
      (stamp (some tick)).toList = List.replicate (9 - (joined first groups).length) ' ' ++
        joined first groups ++ [':', 'T'] ∧
      (joined first groups).filter (· ≠ '_') = tick.repr.toList) ∧
    Function.Injective stamp := by
  refine ⟨fun tick => ?_, stamp_injective⟩
  obtain ⟨first, groups, grouped, joined_eq, all⟩ := inGroups_stamped tick
  refine ⟨first, groups, grouped, joined_eq ▸ toList_stamp tick, ?_⟩
  rw [Nat.toList_repr, ← all]
  refine grouped.filter_joined (fun c digit => decide_eq_true ?_) rfl
  rintro rfl
  cases digit

/-- Groups of zeros, in a number that is wider than the column. -/
example : stamp (some 1000000007) = "1_000_000_007:T" := by decide

end Log
end CpuScheduling
