import QuantityCalculus.Quantity.Basic

/-!
# Quantities as text

A quantity is shown as its payload followed by its units, or as the payload alone
if there are none to show. A layout may be asked for by a word, which is taken
without surrounding blanks and without regard to case.
-/
namespace QuantityCalculus

namespace Layout

def ofWord (word : String) : Except Error Layout :=
  match String.ofList ((Text.trim word.toList).map Char.toLower) with
  | "" | "plain" => .ok plain
  | "pretty" => .ok pretty
  | _ => .error .unknownLayout

end Layout

namespace Quantity

/-- The dimensions as text, if their numerals are short enough. -/
def unitsText (layout : Layout) (d : Dimensions) : Except Error String :=
  if d.Printable then .ok (d.render layout) else .error .numeralTooLong

def text (layout : Layout) (q : Quantity) : Except Error String := do
  let units ← unitsText layout q.dimensions
  let value ← q.value.payloadText
  .ok (if units.isEmpty then value else value ++ " " ++ units)

def physicalText (q : Quantity) : Except Error String :=
  unitsText .plain (.single .physical q.dimensions.physical)

def textAs (q : Quantity) (word : String) : Except Error String := do
  q.text (← Layout.ofWord word)

end Quantity

namespace Dimensions

def describeMap (m : DimensionMap) : String := m.toValue.description

/-- The dimensions with their maps in order of arrival. -/
def describe (d : Dimensions) : Except Error String :=
  if d.Printable then
    .ok ("DimensionTriple(physical=" ++ describeMap d.physical ++ ", algebraic="
      ++ describeMap d.algebraic ++ ", symbolic=" ++ describeMap d.symbolic ++ ")")
  else
    .error .numeralTooLong

end Dimensions

end QuantityCalculus
