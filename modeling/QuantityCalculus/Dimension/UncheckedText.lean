import QuantityCalculus.Dimension.Unchecked
import QuantityCalculus.Value.Order

/-!
# Unchecked maps as text

Factors of unchecked maps are shown like those of exponent maps, with the text of
whatever stands as symbol and as exponent. Anything equal to one is not written.
-/
namespace QuantityCalculus

namespace Unchecked

/-- The raised text of an exponent, empty for one. -/
def superscript (exponent : Value) : Except Error String := do
  if ← exponent.equals (.integer 1) then .ok ""
  else .ok (Text.superscript (← exponent.display))

def factor (layout : Layout) (symbol exponent : Value) : Except Error Value := do
  match layout with
  | .pretty => .ok (.text ((← symbol.display) ++ (← superscript exponent)))
  | .plain =>
    if ← exponent.equals (.integer 1) then .ok symbol
    else .ok (.text ((← symbol.display) ++ "^" ++ (← exponent.display)))

def factors (layout : Layout) (v : Value) : Except Error (List Value) := do
  (← Value.ascending (← v.items)).mapM fun symbol => do
    factor layout symbol (← v.subscript symbol)

def asText : Value → Except Error String
  | .text s => .ok s
  | _ => .error .operandType

def renderAll (layout : Layout) (maps : List Value) : Except Error String := do
  let parts ← maps.mapM (factors layout)
  .ok (layout.join (← parts.flatten.mapM asText))

end Unchecked

end QuantityCalculus
