import Mathlib.Algebra.Field.Rat
import Mathlib.Algebra.GroupWithZero.Basic
import Mathlib.Tactic.SplitIfs
import QuantityCalculus.Quantity.Operand

/-!
# Exact arithmetic of quantities

Under the fraction strategy every payload is read as a ratio, from left to right, and
the result is a ratio. Sums and differences fail for dimensions that disagree before a
payload is read; a quotient fails for a zero divisor, and a negative power for a zero
base.
-/
namespace QuantityCalculus

namespace Quantity

variable (q r : Quantity)

/-- Sums and differences differ in what they do with the two ratios. -/
theorem combine_exact (op : AdditiveOp) (f : Rat → Rat → Rat) :
    combine op (fun v w => do .ok (.ratio (f (← v.toRatio) (← w.toRatio)))) q r =
      if q.dimensions.agrees r.dimensions then (do
        let x ← q.value.toRatio
        let y ← r.value.toRatio
        .ok ⟨.ratio (f x y), q.dimensions⟩)
      else .error (incompatible op q.dimensions r.dimensions) := by
  simp only [combine, bind_assoc]
  rfl

theorem mul_fraction :
    q.mul .fraction r = (do
      let x ← q.value.toRatio
      let y ← r.value.toRatio
      .ok ⟨.ratio (x * y), q.dimensions * r.dimensions⟩) := by
  simp only [mul, NumericStrategy.fraction, bind_assoc]
  rfl

theorem div_fraction :
    q.div .fraction r = (do
      let x ← q.value.toRatio
      let y ← r.value.toRatio
      if y = 0 then .error .divisionByZero
      else .ok ⟨.ratio (x / y), q.dimensions / r.dimensions⟩) := by
  simp only [div, NumericStrategy.fraction, bind_assoc]
  cases q.value.toRatio with
  | error e => rfl
  | ok x =>
    cases r.value.toRatio with
    | error e => rfl
    | ok y => by_cases hy : y = 0 <;> simp [NumericStrategy.exactQuotient, hy, bind, Except.bind]

theorem pow_fraction_zero : q.pow .fraction 0 = .ok ⟨.ratio 1, .dimensionless⟩ := rfl

/-- The reciprocal of a positive power is the negative power, unless the base is zero. -/
theorem exactQuotient_pow {n : Int} (hn : n < 0) (x : Rat) :
    NumericStrategy.exactQuotient 1 (x ^ n.natAbs) =
      if x = 0 then .error .divisionByZero else .ok (.ratio (x ^ n)) := by
  have hcast : n = -(n.natAbs : Int) := by omega
  have hpow : x ^ n = 1 / x ^ n.natAbs := by
    rw [one_div, ← zpow_natCast, ← zpow_neg, ← hcast]
  have hzero : x ^ n.natAbs = 0 ↔ x = 0 := pow_eq_zero_iff (by omega)
  simp only [NumericStrategy.exactQuotient, hzero, hpow]

theorem pow_fraction {n : Int} (hn : n ≠ 0) :
    q.pow .fraction n = (do
      let x ← q.value.toRatio
      if n < 0 ∧ x = 0 then .error .divisionByZero
      else .ok ⟨.ratio (x ^ n), q.dimensions ^ n⟩) := by
  have hpower : (Value.integer n.natAbs).toPower = .ok n.natAbs := Value.toPower_natCast _
  simp only [pow, if_neg hn, NumericStrategy.fraction, hpower]
  cases q.value.toRatio with
  | error e => rfl
  | ok x =>
    by_cases hneg : n < 0
    · have hread : (Value.ratio (x ^ n.natAbs)).toRatio = .ok (x ^ n.natAbs) := rfl
      simp only [bind, Except.bind, ratPower_eq, hneg, ↓reduceIte, hread, exactQuotient_pow hneg,
        true_and]
      split_ifs <;> rfl
    · have hpow : x ^ n.natAbs = x ^ n := by
        rw [← zpow_natCast, Int.natAbs_of_nonneg (by omega)]
      simp [hneg, hpow, bind, Except.bind]

end Quantity

end QuantityCalculus
