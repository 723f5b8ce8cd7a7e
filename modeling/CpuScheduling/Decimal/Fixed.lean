import CpuScheduling.Text.Padded
/-!
Numbers with a fixed count of decimal places. A binary fraction is taken exactly and rounded once;
a tie goes to the even neighbour, and a negative number keeps its sign even when it rounds to
zero.
-/
namespace CpuScheduling.Decimal

/-- What a sixty-four bit floating word stands for, its sign aside. -/
inductive Magnitude where
  | finite (mantissa : Nat) (exponent : Int)
  | infinite
  | undefined
deriving DecidableEq

/-- The sign and the magnitude of a floating word: eleven bits of exponent, fifty-two of fraction.
-/
def decode (bits : Nat) : Bool × Magnitude :=
  let fraction : Nat := bits % 0x10000000000000
  let exponent : Nat := bits / 0x10000000000000 % 0x800
  let magnitude : Magnitude :=
    if exponent = 0x7FF then
      if fraction = 0 then .infinite else .undefined
    else if exponent = 0 then .finite fraction (-1074)
    else .finite (0x10000000000000 + fraction) ((exponent : Int) - 1075)
  (bits / 0x8000000000000000 % 2 == 1, magnitude)

/-- The whole number nearest to a quotient, the even one of two. -/
def roundHalfEven (num den : Nat) : Nat :=
  let q := num / den
  let r := num % den
  if 2 * r < den then q else if den < 2 * r then q + 1 else q + q % 2

/-- The rounded quotient is at most half a unit away. -/
theorem roundHalfEven_near {num den : Nat} (h : 0 < den) :
    2 * num ≤ 2 * (den * roundHalfEven num den) + den ∧
      2 * (den * roundHalfEven num den) ≤ 2 * num + den := by
  have split_num := Nat.div_add_mod num den
  have rest_lt := Nat.mod_lt num h
  have next : den * (num / den + 1) = den * (num / den) + den := Nat.mul_succ _ _
  unfold roundHalfEven
  dsimp only
  split
  · omega
  · split
    · omega
    · rcases Nat.mod_two_eq_zero_or_one (num / den) with even | odd
      · rw [even, Nat.add_zero]; omega
      · rw [odd]; omega

/-- Of two nearest whole numbers the even one is taken. -/
theorem roundHalfEven_tie {num den : Nat} (h : 2 * (num % den) = den) :
    roundHalfEven num den % 2 = 0 := by
  unfold roundHalfEven
  dsimp only
  split
  · omega
  · split <;> omega

/-- The product of `mantissa` and the power of two in units of the last of `places` decimal
places. -/
def scaled (places mantissa : Nat) (exponent : Int) : Nat :=
  match exponent with
  | .ofNat e => mantissa * Nat.pow 2 e * Nat.pow 10 places
  | .negSucc e => roundHalfEven (mantissa * Nat.pow 10 places) (Nat.pow 2 (e + 1))

/-- A count of units of the last place, with the point before the places. -/
def pointed (places units : Nat) : String :=
  (units / Nat.pow 10 places).repr ++ "." ++ Text.zeroPadded places (units % Nat.pow 10 places)

/-- A floating number with `places` decimal places. -/
def fixed (places : Nat) (x : Float) : String :=
  match decode x.toBits.toNat with
  | (_, .undefined) => "NaN"
  | (negative, .infinite) => if negative then "-inf" else "inf"
  | (negative, .finite mantissa exponent) =>
    let text := pointed places (scaled places mantissa exponent)
    if negative then "-" ++ text else text

end CpuScheduling.Decimal
