import QuantityCalculus.Error
import QuantityCalculus.Registry.Standard

/-!
# The catalogue of public names

The package answers for its names: what it exports, what it has besides, and the
standard registries, which are made available on demand. Any other name is refused.
-/
namespace QuantityCalculus

/-- What a name stands for. -/
inductive Provision where
  | registry (ns : Namespace)
  | text (t : String)
  | member
  deriving DecidableEq, Repr

namespace Catalogue

def descriptions : List (String × String) :=
  [("__version__", "0.1.0"), ("__author__", "Dimensia Developers"), ("__license__", "MIT")]

def exportedMembers : List String :=
  ["Quantity", "parse_unit_string", "DimensionMap", "DimensionTriple", "normalize", "dim_add",
   "dim_scale", "dim_equals", "NumericStrategy", "RealStrategy", "FractionStrategy",
   "REAL_STRATEGY", "FRACTION_STRATEGY", "ArithmeticContext", "SimplifyMode",
   "get_default_context", "set_default_context", "local_context", "set_numeric_strategy",
   "get_numeric_strategy", "set_simplify_mode", "get_simplify_mode", "DimensiaError",
   "ParseError", "IncompatibleUnitsError", "ArgumentError", "NonIntegerPowerError",
   "NonFiniteExponentError", "ConversionNotImplementedError", "RegistryError"]

def internalMembers : List String :=
  ["core", "units", "logging", "tomllib", "f", "Any", "TYPE_CHECKING", "__all__", "__annotations__",
   "__dir__", "__getattr__", "__builtins__", "__cached__", "__loader__", "__path__", "__spec__",
   "_LAZY_REGISTRIES", "_Path", "_get_registry", "_metadata"]

/-- What every object provides; the directory leaves it out. -/
def inheritedMembers : List String :=
  ["__class__", "__delattr__", "__dict__", "__eq__", "__format__", "__ge__", "__getattribute__",
   "__getstate__", "__gt__", "__hash__", "__init__", "__init_subclass__", "__le__", "__lt__",
   "__ne__", "__new__", "__reduce__", "__reduce_ex__", "__repr__", "__setattr__", "__sizeof__",
   "__str__", "__subclasshook__"]

def overview : String :=
  "\ndimensia: dimensional bookkeeping for generic values.\n"
    ++ "\nA :class:`Quantity` couples a value with three independent dimension maps"
    ++ "\n(physical, algebraic, symbolic) and refuses to add or subtract quantities"
    ++ "\nwhose maps differ. The value itself is combined by a pluggable numeric"
    ++ "\nstrategy, so plain floats, exact fractions or any custom payload type work"
    ++ "\nthe same way. The definition registries are imported lazily.\n"

def internalTexts : List (String × String) :=
  [("__name__", "dimensia"), ("__package__", "dimensia"), ("__doc__", overview)]

def registries : List (String × Namespace) :=
  [("PHYSICAL_UNITS", .physical), ("ALGEBRAIC_UNITS", .algebraic), ("SYMBOLIC_NUMBERS", .symbolic)]

def provision? (name : String) : Option Provision :=
  match registries.lookup name, (descriptions ++ internalTexts).lookup name with
  | some ns, _ => some (.registry ns)
  | none, some t => some (.text t)
  | none, none =>
    if name ∈ exportedMembers ++ internalMembers ++ inheritedMembers then some .member else none

def find (name : String) : Except Error Provision :=
  match provision? name with
  | some p => .ok p
  | none => .error (.noAttribute name)

def isExported (name : String) : Bool :=
  decide (name ∈ descriptions.map Prod.fst ++ exportedMembers)

/-- The directory shows all that the package provides of its own. -/
def isInDirectory (name : String) : Bool :=
  (provision? name).isSome && !inheritedMembers.contains name

end Catalogue

end QuantityCalculus
