import QuantityCalculus.Dimension.Namespaces
import QuantityCalculus.Text.Numeral
import QuantityCalculus.Text.Superscript

/-!
# Dimensions as text

The plain rendering joins `name^exponent` factors by `*` and is a unit
expression again. The pretty rendering raises the exponents and joins by a
middle dot. Factors are sorted by symbol within a map and the maps follow each
other; an exponent of one is not written. Dimensions can be shown only if every
exponent has a numeral.
-/
namespace QuantityCalculus

inductive Layout where
  | plain
  | pretty
  deriving DecidableEq, Repr

namespace Layout

def separator : Layout → String
  | plain => "*"
  | pretty => "·"

/-- The exponent as it follows its symbol, given its numeral. -/
def exponentMark : Layout → String → String
  | plain, numeral => "^" ++ numeral
  | pretty, numeral => Text.superscript numeral

def factor (layout : Layout) (power : String × Int) : String :=
  if power.2 = 1 then power.1 else power.1 ++ layout.exponentMark power.2.repr

def join (layout : Layout) (factors : List String) : String :=
  layout.separator.intercalate factors

end Layout

namespace DimensionMap

def Printable (m : DimensionMap) : Prop := ∀ e ∈ m.entries, Text.HasNumeral e.2

instance (m : DimensionMap) : Decidable m.Printable :=
  inferInstanceAs (Decidable (∀ e ∈ m.entries, Text.HasNumeral e.2))

def factors (layout : Layout) (m : DimensionMap) : List String :=
  m.sorted.map layout.factor

def renderAll (layout : Layout) (maps : List DimensionMap) : String :=
  layout.join (maps.flatMap (factors layout))

def render (layout : Layout) (m : DimensionMap) : String := renderAll layout [m]

end DimensionMap

namespace Dimensions

def Printable (d : Dimensions) : Prop := ∀ m ∈ d.maps, m.Printable

instance (d : Dimensions) : Decidable d.Printable :=
  inferInstanceAs (Decidable (∀ m ∈ d.maps, m.Printable))

def render (layout : Layout) (d : Dimensions) : String :=
  DimensionMap.renderAll layout d.maps

end Dimensions

/-- What stands for dimensions in a message: no units are written as one. -/
def orOne (units : String) : String := if units.isEmpty then "1" else units

end QuantityCalculus
