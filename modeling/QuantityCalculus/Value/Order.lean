import QuantityCalculus.Sorting.Runs
import QuantityCalculus.Value.Equality

/-!
# The order of values

Numbers are ordered by exact value, texts by code point, and lists by their first items
that differ; other values are not ordered. Sorting is stable. Numbers that are not
numbers precede nothing and follow nothing, so where they end up depends on which values
are compared.
-/
namespace QuantityCalculus

namespace Value

mutual

def precedes : Value → Value → Except Error Bool
  | number a, number b => a.precedes b
  | text s, text t => .ok (decide (s < t))
  | list items, list others => itemsPrecede items others
  | _, _ => .error .operandType

def itemsPrecede : List Value → List Value → Except Error Bool
  | [], others => .ok !others.isEmpty
  | _ :: _, [] => .ok false
  | v :: rest, w :: others => do
    if v.isSame w then itemsPrecede rest others
    else if ← v.equals w then itemsPrecede rest others
    else v.precedes w

end

def ascending (values : List Value) : Except Error (List Value) :=
  Sorting.ascending precedes values

end Value

end QuantityCalculus
