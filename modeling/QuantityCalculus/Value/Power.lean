import QuantityCalculus.Number.Raise
import QuantityCalculus.Value.Basic

/-!
# Powers of values

Only numbers have powers and are exponents.
-/
namespace QuantityCalculus

open scoped NaturalPowers

namespace Value

def raise : Value → Value → Except Error Value
  | number a, number b => (a.raise b).map number
  | number (.ratio p), _ => .error (Number.ratioMismatch p)
  | _, number (.ratio q) => .error (if q.den = 1 then .operandType else Number.ratioMismatch q)
  | _, _ => .error .operandType

def raiseModulo : Value → Value → Value → Except Error Value
  | number a, number n, number m => (a.raiseModulo n m).map number
  | _, _, _ => .error .operandType

@[simp] theorem raise_integer (n : Int) (k : Nat) :
    (integer n).raise (integer k) = .ok (integer (n ^ k)) := by
  simp [raise, Except.map]

@[simp] theorem raise_ratio (q : Rat) (k : Nat) :
    (ratio q).raise (integer k) = .ok (ratio (q ^ k)) := by
  simp [raise, Except.map]

end Value

end QuantityCalculus
