/-!
# Searching in order

A place in a run of items in order is found by halving, or by strides that double
from a place where it is likely to be. What an item is before is asked by
computations that may fail, so which places are asked about is part of the outcome,
and so is the place found if the answers contradict an order.
-/
namespace QuantityCalculus

namespace Sorting

variable {ε : Type}

/-- The first place from `low` on that is not before, or else `high`. -/
def bisect (before : Nat → Except ε Bool) (low high : Nat) : Except ε Nat := do
  if _h : low < high then
    let middle := low + (high - low) / 2
    if ← before middle then bisect before (middle + 1) high
    else bisect before low middle
  else
    .ok low
termination_by high - low

/-- Strides of doubling length: the last one known to go on, and the first that does not. -/
def stride (goesOn : Nat → Except ε Bool) (limit last next : Nat) : Except ε (Nat × Nat) := do
  if _h : next < limit then
    if ← goesOn next then stride goesOn limit next (2 * next + 1)
    else .ok (last, next)
  else
    .ok (last, limit)
termination_by limit - next

/-- The first place of `size` many that is not before, sought from `hint` on to either side. -/
def gallop (before : Nat → Except ε Bool) (size hint : Nat) : Except ε Nat := do
  if ← before hint then
    let (last, next) ← stride (fun k => before (hint + k)) (size - hint) 0 1
    bisect before (hint + last + 1) (hint + next)
  else
    let (last, next) ← stride (fun k => do .ok !(← before (hint - k))) (hint + 1) 0 1
    bisect before (hint + 1 - next) (hint - last)

end Sorting

end QuantityCalculus
