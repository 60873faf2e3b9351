import QuantityCalculus.Registry.Basic

/-!
# Standard registries

The seven base units of physics with their spelled-out names, the imaginary unit, and
the two best-known constants.
-/
namespace QuantityCalculus

namespace Registry

/-- A base unit: once itself, known by its spelled-out names too. -/
def writeBaseUnit (r : Registry) (symbol : String) (spelledOut : List String) : Registry :=
  r.write symbol
    (.physical
      { dimensions := .ofList [(symbol, 1)], aliases := spelledOut.map Value.text }) spelledOut

def baseUnits : List (String × List String) :=
  [("m", ["meter", "metre"]), ("kg", ["kilogram"]), ("s", ["second"]), ("A", ["ampere"]),
   ("K", ["kelvin"]), ("mol", ["mole"]), ("cd", ["candela"])]

def physicalUnits : Registry :=
  baseUnits.foldl (fun r unit => r.writeBaseUnit unit.1 unit.2) { kind := "physical unit" }

def algebraicUnits : Registry :=
  Registry.write { kind := "algebraic unit" } "i" (.algebraic (.text "x^2+1")) []

def symbolicNumbers : Registry :=
  (Registry.write { kind := "symbolic number" } "pi"
    (.symbolic (.text "\\pi") (.number (.float 3.141592653589793))) []).write "e"
    (.symbolic (.text "e") (.number (.float 2.718281828459045))) []

def standard : Namespace → Registry
  | .physical => physicalUnits
  | .algebraic => algebraicUnits
  | .symbolic => symbolicNumbers

end Registry

end QuantityCalculus
