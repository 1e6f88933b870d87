import MetricBackend.LibText

/-! Finite double precision numbers as rationals: rounding to the nearest one, with ties to the even
mantissa, and reading them from decimal texts. -/

namespace MetricBackend

/-- A power of two with an exponent of either sign. -/
def twoPow (exponent : Int) : Rat :=
  if 0 ≤ exponent then (2 ^ exponent.toNat : Nat) else 1 / ((2 ^ (-exponent).toNat : Nat) : Rat)

/-- The integer nearest to a rational, the even one of two. -/
def roundEven (value : Rat) : Int :=
  let below := value.floor
  let rest := value - below
  if rest < 1 / 2 ∨ (rest = 1 / 2 ∧ below % 2 = 0) then below else below + 1

/-- The exponent of the leading bit of a rational that is not zero. -/
def leadingExponent (value : Rat) : Int :=
  let estimate : Int := value.num.natAbs.log2 - value.den.log2
  if twoPow estimate ≤ (value.num.natAbs : Rat) / value.den then estimate else estimate - 1

/-- The double nearest to a rational, with fifty-three bits and no bit below `2 ^ -1074`. -/
def roundDouble (value : Rat) : Rat :=
  if value = 0 then 0
  else
    let exponent := max (leadingExponent value - 52) (-1074)
    roundEven (value / twoPow exponent) * twoPow exponent

/-- `str::parse::<f64>` of a text whose value is finite. -/
def parseF64 (text : Text) : Option Rat :=
  let digits := match text with
    | '-' :: rest => rest
    | '+' :: rest => rest
    | text => text
  if isFiniteF64 text then
    (decimalParts digits).map fun (mantissa, exponent) =>
      let magnitude : Rat :=
        if 0 ≤ exponent then (mantissa * 10 ^ exponent.toNat : Nat)
        else (mantissa : Rat) / (10 ^ (-exponent).toNat : Nat)
      roundDouble (if text.head? = some '-' then -magnitude else magnitude)
  else none

theorem isSome_parseF64 (text : Text) : (parseF64 text).isSome = isFiniteF64 text := by
  unfold parseF64
  by_cases hfinite : isFiniteF64 text = true
  · rw [if_pos hfinite, hfinite, Option.isSome_map]
    unfold isFiniteF64 at hfinite
    dsimp only at hfinite
    revert hfinite
    generalize decimalParts _ = parts
    cases parts with
    | none => exact fun h => absurd h Bool.false_ne_true
    | some value => exact fun _ => rfl
  · rw [if_neg hfinite, Bool.eq_false_iff.mpr hfinite]
    rfl

end MetricBackend
