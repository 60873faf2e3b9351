import QuantityCalculus.Number.Power

/-!
# Decimal numerals

Whole numbers are written in base ten. Neither writing nor reading goes beyond
`digitLimit` digits: a longer numeral is refused, whether it comes from a value
or from a text, and a text counts its leading zeros.
-/
namespace QuantityCalculus.Text

open scoped NaturalPowers

/-- The greatest number of digits in a numeral; the sign does not count. -/
def digitLimit : Nat := 4300

def HasNumeral (n : Int) : Prop := n.natAbs < 10 ^ digitLimit

instance (n : Int) : Decidable (HasNumeral n) := inferInstanceAs (Decidable (_ < _))

/-- The least number without a numeral. -/
theorem not_hasNumeral_ten_pow : ¬HasNumeral (10 ^ digitLimit) := by
  simp [HasNumeral, Int.natAbs_pow]

/-- The greatest number with a numeral. -/
theorem hasNumeral_ten_pow_sub_one : HasNumeral (10 ^ digitLimit - 1) := by
  have hpos : (0 : Int) < 10 ^ digitLimit := Int.pow_pos (by decide)
  have habs : (10 ^ digitLimit : Int).natAbs = 10 ^ digitLimit := by
    simp [Int.natAbs_pow]
  unfold HasNumeral
  rw [← habs]
  omega

def numeral? (n : Int) : Option String :=
  if HasNumeral n then some n.repr else none

/-- The number that a run of ASCII digits denotes, if the run is short enough. -/
def readDigits? (digits : List Char) : Option Nat :=
  if digits.length ≤ digitLimit then some (Nat.ofDigitChars 10 digits 0) else none

end QuantityCalculus.Text
