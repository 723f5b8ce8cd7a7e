import CpuScheduling.Proofs.WrittenWorkload
import CpuScheduling.Report
/-!
The characters of a text. A number is shown with digits, a sign, a point or a few letters, and a
column is filled with spaces; any other character can stand between such texts, and what it joins
can be taken apart again.
-/
namespace CpuScheduling

namespace Text
variable {c : Char} {text text' : String} {texts texts' : List String}

/-- A character does not occur in a text. -/
def Lacks (c : Char) (text : String) : Prop := c ∉ text.toList

instance (c : Char) (text : String) : Decidable (Lacks c text) :=
  inferInstanceAs (Decidable (c ∉ text.toList))

theorem Lacks.append (left : Lacks c text) (right : Lacks c text') : Lacks c (text ++ text') := by
  unfold Lacks at *
  rw [String.toList_append, List.mem_append]
  exact not_or.2 ⟨left, right⟩

theorem Lacks.beq_eq_false (lacks : Lacks c text) : ∀ d ∈ text.toList, (d == c) = false :=
  fun _ member => beq_eq_false_iff_ne.2 fun same => lacks (same ▸ member)

theorem lacks_join (each : ∀ text ∈ texts, Lacks c text) : Lacks c (String.join texts) := by
  unfold Lacks
  rw [String.toList_join, List.mem_flatMap]
  rintro ⟨text, member, inside⟩
  exact each text member inside

theorem lacks_unlines (other : c ≠ '\n') (each : ∀ text ∈ texts, Lacks c text) :
    Lacks c (unlines texts) := by
  refine lacks_join fun line member => ?_
  obtain ⟨text, inside, rfl⟩ := List.mem_map.1 member
  exact (each text inside).append (by simpa [Lacks] using other)

theorem lacks_intercalate {between : String} (apart : Lacks c between)
    (each : ∀ text ∈ texts, Lacks c text) : Lacks c (between.intercalate texts) := by
  induction texts with
  | nil => exact List.not_mem_nil
  | cons text texts ih =>
    obtain ⟨first, others⟩ := List.forall_mem_cons.1 each
    cases texts with
    | nil => exact first
    | cons next texts =>
      rw [String.intercalate_cons_cons]
      exact (first.append apart).append (ih others)

theorem toList_padRight (width : Nat) (text : String) :
    (padRight width text).toList =
      text.toList ++ List.replicate (width - text.toList.length) ' ' := String.toList_ofList

theorem length_padRight (width : Nat) (text : String) :
    (padRight width text).toList.length = max text.toList.length width := by
  rw [toList_padRight, List.length_append, List.length_replicate]
  omega

theorem Lacks.padRight (other : c ≠ ' ') (lacks : Lacks c text) (width : Nat) :
    Lacks c (padRight width text) := by
  unfold Lacks at *
  rw [toList_padRight, List.mem_append, List.mem_replicate]
  exact not_or.2 ⟨lacks, fun filled => other filled.2⟩

theorem toList_padLeft (width : Nat) (text : String) :
    (padLeft width text).toList =
      List.replicate (width - text.toList.length) ' ' ++ text.toList := String.toList_ofList

theorem Lacks.padLeft (other : c ≠ ' ') (lacks : Lacks c text) (width : Nat) :
    Lacks c (padLeft width text) := by
  unfold Lacks at *
  rw [toList_padLeft, List.mem_append, List.mem_replicate]
  exact not_or.2 ⟨fun filled => other filled.2, lacks⟩

/-- What is behind the spaces of a column can be told from the column. -/
theorem padRight_inj {width : Nat} (solid : Lacks ' ' text) (solid' : Lacks ' ' text') :
    padRight width text = padRight width text' ↔ text = text' := by
  refine ⟨fun same => ?_, congrArg _⟩
  have visible : ∀ t, Lacks ' ' t → (padRight width t).toList.filter (· ≠ ' ') = t.toList := by
    intro t solid
    have kept : t.toList.filter (· ≠ ' ') = t.toList :=
      List.filter_eq_self.2 fun c member => by
        simpa using fun space : c = ' ' => solid (space ▸ member)
    rw [toList_padRight, List.filter_append, kept, List.filter_replicate_of_neg (by simp),
      List.append_nil]
  rw [← String.toList_inj, ← visible text solid, ← visible text' solid', same]

/-! Numbers. -/

/-- The characters with which numbers are shown. -/
def isNumeric (c : Char) : Bool := c.isDigit || "-.NaNinf".toList.contains c

/-- Nothing but characters of numbers. -/
def Numeric (text : String) : Prop := ∀ c ∈ text.toList, isNumeric c = true

-- Named, since the search may find the instance that goes through all characters instead.
instance (text : String) : Decidable (Numeric text) := List.decidableBAll _ text.toList

theorem Numeric.lacks (numeric : Numeric text) (foreign : isNumeric c = false) : Lacks c text :=
  fun member => absurd (numeric c member) (Bool.eq_false_iff.1 foreign)

theorem Numeric.append (left : Numeric text) (right : Numeric text') : Numeric (text ++ text') := by
  unfold Numeric at *
  rw [String.toList_append]
  exact List.forall_mem_append.2 ⟨left, right⟩

theorem numeric_ofList {digits : List Char} (all : ∀ c ∈ digits, c.isDigit = true) :
    Numeric (String.ofList digits) := by
  intro c member
  rw [String.toList_ofList] at member
  rw [isNumeric, all c member, Bool.true_or]

theorem isDigit_of_mem_toDigits {n : Nat} (member : c ∈ Nat.toDigits 10 n) : c.isDigit = true :=
  Nat.isDigit_of_mem_toDigits (by decide) (by decide) member

theorem numeric_repr (n : Nat) : Numeric n.repr :=
  numeric_ofList fun _ => isDigit_of_mem_toDigits

theorem numeric_intRepr (v : Int) : Numeric v.repr := by
  have sign : Numeric "-" := by decide
  cases v with
  | ofNat n => exact numeric_repr n
  | negSucc n => exact sign.append (numeric_repr (n + 1))

theorem numeric_zeroPadded (width n : Nat) : Numeric (zeroPadded width n) := by
  refine numeric_ofList fun c member => ?_
  rcases List.mem_append.1 member with zero | digit
  · rw [(List.mem_replicate.1 zero).2]
    rfl
  · exact isDigit_of_mem_toDigits digit

/-! What is shown of a number is read as that number. -/

theorem toList_repr (n : Nat) : n.repr.toList = digits 0 n := String.toList_ofList

theorem natural?_repr (n : Nat) : natural? n.repr.toList = some n := by
  rw [toList_repr, natural?_digits]

theorem integer?_repr (v : Int) : integer? v.repr.toList = some v := (numeral_repr v).integer?_eq

theorem solid_intRepr (v : Int) : Solid v.repr.toList := (numeral_repr v).solid.1

theorem solid_repr (n : Nat) : Solid n.repr.toList := solid_intRepr n

theorem repr_inj {n n' : Nat} : n.repr = n'.repr ↔ n = n' := by
  refine ⟨fun same => ?_, congrArg _⟩
  rw [← Option.some_inj, ← natural?_repr, same, natural?_repr]

theorem intRepr_inj {v v' : Int} : v.repr = v'.repr ↔ v = v' := by
  refine ⟨fun same => ?_, congrArg _⟩
  rw [← Option.some_inj, ← integer?_repr, same, integer?_repr]

end Text

theorem Decimal.numeric_fixed (places : Nat) (x : Float) : Text.Numeric (fixed places x) := by
  have pointed : ∀ units, Text.Numeric (pointed places units) := fun units =>
    ((Text.numeric_repr _).append (by decide : Text.Numeric ".")).append
      (Text.numeric_zeroPadded _ _)
  have sign : Text.Numeric "-" := by decide
  unfold fixed
  split
  · decide
  · split <;> decide
  · dsimp only
    split
    · exact sign.append (pointed _)
    · exact pointed _

namespace Text
variable {c : Char} {text : String} {texts texts' : List String}

/-! Lines. -/

theorem toList_unlines_cons (text : String) (texts : List String) :
    (unlines (text :: texts)).toList = text.toList ++ '\n' :: (unlines texts).toList := by
  simp [unlines, String.toList_join]

theorem join_map_unlines {α : Type} (f : α → List String) (l : List α) :
    String.join (l.map fun a => unlines (f a)) = unlines (l.flatMap f) := by
  rw [← String.toList_inj]
  simp [unlines, String.toList_join, List.map_flatMap, List.flatMap_assoc, List.flatMap_map]

theorem splitOn_append_cons (lacks : Lacks c text) (rest : List Char) :
    (text.toList ++ c :: rest).splitOn c = text.toList :: rest.splitOn c :=
  List.splitOnP_append_cons_of_forall_mem lacks.beq_eq_false c (beq_self_eq_true c) rest

theorem splitOn_of_lacks (lacks : Lacks c text) : text.toList.splitOn c = [text.toList] :=
  List.splitOnP_eq_singleton lacks.beq_eq_false

/-- Lines that were written one below the other are the pieces between newlines; behind the last
one is nothing. -/
theorem splitOn_unlines (single : ∀ text ∈ texts, Lacks '\n' text) :
    (unlines texts).toList.splitOn '\n' = texts.map String.toList ++ [[]] := by
  induction texts with
  | nil => rfl
  | cons text texts ih =>
    obtain ⟨first, others⟩ := List.forall_mem_cons.1 single
    rw [toList_unlines_cons, splitOn_append_cons first, ih others, List.map_cons, List.cons_append]

theorem unlines_inj (single : ∀ text ∈ texts, Lacks '\n' text)
    (single' : ∀ text ∈ texts', Lacks '\n' text) :
    unlines texts = unlines texts' ↔ texts = texts' := by
  refine ⟨fun same => ?_, congrArg _⟩
  have pieces := splitOn_unlines single
  rw [same, splitOn_unlines single', List.append_left_inj] at pieces
  exact (List.map_injective_iff.2 (fun _ _ => String.toList_inj.1) pieces).symm

end Text
end CpuScheduling
