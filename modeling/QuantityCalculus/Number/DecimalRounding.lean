import QuantityCalculus.Number.Decimal

/-!
# Rounding of decimals

A result keeps a limited number of digits: it is the nearest decimal that has no more,
a half going to the even neighbour. Results too large for the range of exponents are
refused, and those too small lose digits, in the end all of them.
-/
namespace QuantityCalculus

open scoped NaturalPowers

inductive DecimalFault where
  /-- An operand signals, or the result is undefined. -/
  | invalid
  | divisionByZero
  | overflow
  deriving DecidableEq, Repr

namespace Decimal

def precision : Nat := 28

/-- The greatest exponent that the first digit of a result may have. -/
def greatestExponent : Int := 999999

/-- The least exponent that the last of a number of digits may have; the first one of them
may then have the opposite of the greatest exponent. -/
def leastExponent (places : Nat) : Int := 1 - greatestExponent - places

def dropDigits (coefficient k : Nat) : Nat :=
  if digitCount coefficient < k then 0 else Binary.roundHalfEven coefficient (10 ^ k)

/-- A coefficient and its exponent without the last digits, at most `places` of which are left;
so a carry to one more digit leaves a zero to drop. -/
def shorten (places : Nat) (surplus : Int) (coefficient : Nat) (exponent : Int) : Nat × Int :=
  if surplus ≤ 0 then (coefficient, exponent)
  else
    let kept := dropDigits coefficient surplus.toNat
    if kept = 10 ^ places then (10 ^ (places - 1), exponent + surplus + 1)
    else (kept, exponent + surplus)

def toPlaces (places coefficient : Nat) (exponent : Int) : Nat × Int :=
  shorten places ((digitCount coefficient : Int) - places) coefficient exponent

/-- The nearest decimal that has no more digits and is in range. -/
def fitTo (places : Nat) (negative : Bool) (coefficient : Nat) (exponent : Int) :
    Except DecimalFault Decimal :=
  let least := leastExponent places
  if coefficient = 0 then
    .ok (finite negative 0 (max least (min greatestExponent exponent)))
  else
    let surplus := max ((digitCount coefficient : Int) - places) (least - exponent)
    let (c, e) := shorten places surplus coefficient exponent
    if greatestExponent < e + digitCount c - 1 then .error .overflow else .ok (finite negative c e)

def fit (negative : Bool) (coefficient : Nat) (exponent : Int) : Except DecimalFault Decimal :=
  fitTo precision negative coefficient exponent

end Decimal

end QuantityCalculus
