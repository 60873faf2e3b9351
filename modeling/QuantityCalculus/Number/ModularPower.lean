/-!
# Powers modulo a number

Powers are reduced at every multiplication, so exponents may be of any size. A number
without a common factor with the modulus has an inverse, which the steps that find the
greatest common divisor bring along.
-/
namespace QuantityCalculus

/-- The power by squaring, reduced at every step. -/
def powMod (base modulus k : Nat) : Nat :=
  if _h : k = 0 then 1 % modulus
  else
    let half := powMod base modulus (k / 2)
    let square := half * half % modulus
    if k % 2 = 1 then square * base % modulus else square
termination_by k

/-- Divide until nothing is left. Each remainder `r` is congruent to `s * a` modulo the
modulus, for the number `a` that is inverted. -/
def inverseFrom (r : Nat) (s : Int) (r' : Nat) (s' : Int) : Option Int :=
  if _h : r' = 0 then if r = 1 then some s else none
  else inverseFrom r' s' (r % r') (s - r / r' * s')
termination_by r'
decreasing_by exact Nat.mod_lt _ (Nat.pos_of_ne_zero _h)

def inverseMod? (a modulus : Nat) : Option Nat :=
  (inverseFrom modulus 0 (a % modulus) 1).map fun s => (s % (modulus : Int)).toNat

end QuantityCalculus
