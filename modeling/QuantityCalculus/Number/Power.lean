/-!
# Powers

Powers of zero, one and minus one are known without multiplying, so their exponents
may be of any size.
-/
namespace QuantityCalculus

namespace NaturalPowers

-- Powers of whole numbers are those of the number types themselves, also where the
-- numbers are known as a monoid.
attribute [scoped instance (100000)] instPowNat

end NaturalPowers

open scoped NaturalPowers

def intPower (n : Int) (k : Nat) : Int :=
  if n.natAbs ≤ 1 then
    if k = 0 then 1 else if k % 2 = 0 then n * n else n
  else
    n ^ k

def ratPower (q : Rat) (k : Nat) : Rat :=
  if q.den = 1 then (intPower q.num k : Rat) else q ^ k

@[simp] theorem intPower_eq (n : Int) (k : Nat) : intPower n k = n ^ k := by
  unfold intPower
  split
  · split
    · simp [*]
    · rename_i hn hk
      have hodd : k % 2 = 0 ∨ k % 2 = 1 := by omega
      have hcases : n = 0 ∨ n = 1 ∨ n = -1 := by omega
      rcases hcases with rfl | rfl | rfl
      · simp [Int.zero_pow hk]
      · rw [Int.one_pow]
        split <;> rfl
      · rw [Int.neg_pow, Int.one_pow]
        rcases hodd with h | h <;> simp [h]
  · rfl

@[simp] theorem ratPower_eq (q : Rat) (k : Nat) : ratPower q k = q ^ k := by
  unfold ratPower
  split
  · rename_i h
    have hq : (q.num : Rat) = q := Rat.ext rfl h.symm
    rw [intPower_eq, Rat.intCast_pow, hq]
  · rfl

end QuantityCalculus
