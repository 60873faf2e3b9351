import QuantityCalculus.Dimension.Unchecked
import QuantityCalculus.UnitExpr.Scan

/-!
# Unit specifications

Units are specified by a unit expression, by a map of exponents, or not at all.
-/
namespace QuantityCalculus

namespace UnitExpr

/-- The product that a value denotes as a unit expression; a vacant value denotes
no units. -/
def readValue (v : Value) : Except Error DimensionMap :=
  if v.isVacant then .ok ∅
  else
    match v with
    | .text s => read s
    | _ => .error (.unitsNotText v.typeName)

def isNameValue : Value → Bool
  | .text s => isName s.toList
  | _ => false

end UnitExpr

def DimensionMap.ofSpec (spec : Value) : Except Error DimensionMap :=
  match spec with
  | .absent | .text _ => UnitExpr.readValue spec
  | _ => DimensionMap.normalize spec

end QuantityCalculus
