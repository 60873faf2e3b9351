import QuantityCalculus.Dimension.Map

/-!
# Dimensions in three namespaces

A quantity has physical units, algebraic elements and symbolic constants. The
three namespaces never mix: a symbol of one is unrelated to the same symbol of
another, and every operation works in each namespace on its own.
-/
namespace QuantityCalculus

inductive Namespace where
  | physical
  | algebraic
  | symbolic
  deriving DecidableEq, Repr

/-- One exponent map for each namespace. -/
structure Dimensions where
  physical : DimensionMap := ∅
  algebraic : DimensionMap := ∅
  symbolic : DimensionMap := ∅
  deriving DecidableEq, Inhabited

namespace Dimensions

def dimensionless : Dimensions := {}

def get (d : Dimensions) : Namespace → DimensionMap
  | .physical => d.physical
  | .algebraic => d.algebraic
  | .symbolic => d.symbolic

def single (ns : Namespace) (m : DimensionMap) : Dimensions :=
  match ns with
  | .physical => { physical := m }
  | .algebraic => { algebraic := m }
  | .symbolic => { symbolic := m }

def maps (d : Dimensions) : List DimensionMap := [d.physical, d.algebraic, d.symbolic]

def exponent (d : Dimensions) (ns : Namespace) (s : String) : Int := (d.get ns).exponent s

def mul (a b : Dimensions) : Dimensions :=
  ⟨a.physical + b.physical, a.algebraic + b.algebraic, a.symbolic + b.symbolic⟩

def div (a b : Dimensions) : Dimensions :=
  ⟨a.physical - b.physical, a.algebraic - b.algebraic, a.symbolic - b.symbolic⟩

def pow (a : Dimensions) (n : Int) : Dimensions :=
  ⟨a.physical.scale n, a.algebraic.scale n, a.symbolic.scale n⟩

instance : Mul Dimensions := ⟨mul⟩

instance : Div Dimensions := ⟨div⟩

instance : Pow Dimensions Int := ⟨pow⟩

/-- The same exponents in every namespace, in any order. -/
def agrees (a b : Dimensions) : Bool :=
  a.physical.agrees b.physical && a.algebraic.agrees b.algebraic && a.symbolic.agrees b.symbolic

def isDimensionless (d : Dimensions) : Bool :=
  d.physical.isEmpty && d.algebraic.isEmpty && d.symbolic.isEmpty

theorem get_mul (a b : Dimensions) (ns : Namespace) : (a * b).get ns = a.get ns + b.get ns := by
  cases ns <;> rfl

theorem get_div (a b : Dimensions) (ns : Namespace) : (a / b).get ns = a.get ns - b.get ns := by
  cases ns <;> rfl

theorem get_pow (a : Dimensions) (n : Int) (ns : Namespace) : (a ^ n).get ns = (a.get ns).scale n := by
  cases ns <;> rfl

end Dimensions

end QuantityCalculus
