import QuantityCalculus.Error
import QuantityCalculus.Number.Basic

/-!
# Comparison of numbers

Numbers of all kinds compare by exact value. As operations, comparisons may be refused:
signalling decimals are not compared at all, and decimals that are not numbers have no
place in the order.
-/
namespace QuantityCalculus

namespace Number

def compareEqual (a b : Number) : Except Error Bool :=
  if a.isSignalling || b.isSignalling then .error (.decimal .invalid) else .ok (a.equals b)

/-- The order by exact value. Nothing precedes a double that is not a number or follows
it; such decimals, and such doubles beside decimals, are refused. -/
def precedes (a b : Number) : Except Error Bool :=
  if (a.extent = .notANumber ∨ b.extent = .notANumber) ∧ (a.isDecimal || b.isDecimal) then
    .error (.decimal .invalid)
  else
    .ok (a.extent.precedes b.extent)

def isPositive (a : Number) : Except Error Bool := (integer 0).precedes a

theorem compareEqual_eq {a b : Number} (ha : a.isSignalling = false) (hb : b.isSignalling = false) :
    a.compareEqual b = .ok (a.equals b) := by
  simp [compareEqual, ha, hb]

@[simp] theorem compareEqual_ratio (p q : Rat) :
    (ratio p).compareEqual (ratio q) = .ok (decide (p = q)) := by
  simp [compareEqual, isSignalling, widen, equals, extent]

@[simp] theorem compareEqual_ratio_integer (q : Rat) (n : Int) :
    (ratio q).compareEqual (integer n) = .ok (decide (q = n)) := by
  simp [compareEqual, isSignalling, widen, equals, extent]

@[simp] theorem compareEqual_integer (m n : Int) :
    (integer m).compareEqual (integer n) = .ok (decide (m = n)) := by
  have hcast : ((m : Rat) = n) = (m = n) := propext Rat.intCast_inj
  simp only [compareEqual, isSignalling, widen, equals, extent, Extent.equals_unshifted, hcast]
  rfl

end Number

end QuantityCalculus
