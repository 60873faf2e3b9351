import QuantityCalculus.Number.Power

/-!
# Logarithm and exponential in fixed point

Numbers in fixed point are integers that count units of a power of ten. Series are
summed until their terms vanish, each term cut off at the unit, so a result is off by
about as many units as there are terms; who needs exact digits asks for more of them.
-/
namespace QuantityCalculus

open scoped NaturalPowers

namespace FixedPoint

def unit (scale : Nat) : Nat := 10 ^ scale

/-- The sum of `term * (1 / k + z² / (k + 2) + …)`, where `square` is `z²`. -/
def oddSeries (scale : Nat) (square : Int) : (fuel k : Nat) → (term : Int) → Int
  | 0, _, _ => 0
  | fuel + 1, k, term =>
    if term = 0 then 0
    else term.tdiv k + oddSeries scale square fuel (k + 2) ((term * square).tdiv (unit scale))

/-- The logarithm of `(1 + z) / (1 - z)`, for `z = num / den` up to two thirds in size: terms
shrink to less than a half from one to the next. -/
def logOfRatio (scale : Nat) (num : Int) (den : Nat) : Int :=
  let z := (num * unit scale).tdiv den
  2 * oddSeries scale ((z * z).tdiv (unit scale)) (4 * scale + 8) 1 z

/-- The logarithm of ten, which is that of two three times and that of five quarters. -/
def logTen (scale : Nat) : Int := 3 * logOfRatio scale 1 3 + logOfRatio scale 1 9

/-- The logarithm of `m * 10 ^ k`, where `m = c / 10 ^ width` lies from 0.3 to 3. -/
def log (scale : Nat) (c width : Nat) (k : Int) : Int :=
  logOfRatio scale ((c : Int) - 10 ^ width) (c + 10 ^ width) + k * logTen scale

/-- The sum of `term * (1 + x / k + x² / (k * (k + 1)) + …)`. -/
def expSeries (scale : Nat) (x : Nat) : (fuel k term : Nat) → Nat
  | 0, _, _ => 0
  | fuel + 1, k, term =>
    if term = 0 then 0
    else term + expSeries scale x fuel (k + 1) (term * x / unit scale / k)

/-- The exponential as `m * 10 ^ k`, where `m` lies from one to ten. -/
def exp (scale : Nat) (x : Int) : Nat × Int :=
  let k := Int.fdiv x (logTen scale)
  (expSeries scale (x - k * logTen scale).toNat (scale + 40) 1 (unit scale), k)

end FixedPoint

end QuantityCalculus
