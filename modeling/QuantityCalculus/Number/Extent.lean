import QuantityCalculus.Number.Power

/-!
# Extents

The extent of a number is its exact value, free of the kind of number: a ratio times
a power of ten, an infinity, or not a number. The power of ten may be huge, so extents
are compared without multiplying it out where signs and sizes decide.
-/
namespace QuantityCalculus

open scoped NaturalPowers

inductive Extent where
  /-- The value `q * 10 ^ shift`. -/
  | finite (q : Rat) (shift : Int)
  | infinite (negative : Bool)
  | notANumber
  deriving DecidableEq

namespace Extent

/-- The order of `p * 10 ^ k` and `q`. The power is left alone if it exceeds all that
the numerator of `q` and the denominator of `p` can make up for. -/
def compareRaised (p : Rat) (k : Nat) (q : Rat) : Ordering :=
  if p = 0 ∨ k = 0 then compareOfLessAndEq p q
  else if q.num.natAbs.log2 + p.den.log2 < k then if p < 0 then .lt else .gt
  else compareOfLessAndEq (p * 10 ^ k) q

def compareFinite (p : Rat) (s : Int) (q : Rat) (t : Int) : Ordering :=
  if t ≤ s then compareRaised p (s - t).toNat q else (compareRaised q (t - s).toNat p).swap

def equals : Extent → Extent → Bool
  | finite p s, finite q t => compareFinite p s q t == .eq
  | infinite s, infinite t => s == t
  | _, _ => false

def precedes : Extent → Extent → Bool
  | finite p s, finite q t => compareFinite p s q t == .lt
  | infinite s, infinite t => s && !t
  | infinite s, finite .. => s
  | finite .., infinite t => !t
  | _, _ => false

@[simp] theorem compareFinite_unshifted (p q : Rat) :
    compareFinite p 0 q 0 = compareOfLessAndEq p q := by
  unfold compareFinite
  rw [if_pos (Int.le_refl 0)]
  unfold compareRaised
  exact if_pos (.inr rfl)

@[simp] theorem equals_unshifted (p q : Rat) : (finite p 0).equals (finite q 0) = decide (p = q) := by
  simp only [equals, compareFinite_unshifted, compareOfLessAndEq]
  by_cases h : p = q
  · rw [if_neg (h ▸ Rat.lt_irrefl), if_pos h, decide_eq_true h]
    rfl
  · by_cases hlt : p < q <;> simp [h, hlt]

end Extent

end QuantityCalculus
