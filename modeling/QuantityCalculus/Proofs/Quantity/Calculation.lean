import QuantityCalculus.Proofs.Dimension.Laws
import QuantityCalculus.Proofs.Quantity.Expression
import QuantityCalculus.Session

/-!
# Dimensions of calculations

A calculation combines quantities and plain numbers by operators, which compute under the
default context, and by methods, which may be given contexts of their own. Payloads, numbers
and contexts are left open; an environment settles them. The dimensions of a result can be
told from the calculation alone, without any environment, and the exponent of a symbol in a
namespace from the exponents of that symbol in that namespace alone.
-/
namespace QuantityCalculus

inductive Combination where
  | add
  | sub
  | mul
  | div
  deriving DecidableEq, Repr

namespace Combination

def toOperator : Combination → Operator
  | add => .add
  | sub => .sub
  | mul => .mul
  | div => .div

theorem toOperator_ne_pow (op : Combination) : op.toOperator ≠ .pow := by
  cases op <;> decide

/-- The dimensions that quantities of given dimensions combine to, if they combine. -/
def dimensions (op : Combination) (a b : Dimensions) : Dimensions :=
  match op with
  | add | sub => a
  | mul => a * b
  | div => a / b

def exponent (op : Combination) (m n : Int) : Int :=
  match op with
  | add | sub => m
  | mul => m + n
  | div => m - n

def Balances (op : Combination) (m n : Int) : Prop := op = add ∨ op = sub → m = n

@[simp] theorem exponent_dimensions (op : Combination) (a b : Dimensions) (ns : Namespace)
    (s : String) :
    (op.dimensions a b).exponent ns s = op.exponent (a.exponent ns s) (b.exponent ns s) := by
  cases op with
  | add | sub => rfl
  | mul => exact a.exponent_mul b ns s
  | div => exact a.exponent_div b ns s

end Combination

/-- What an open calculation is settled by. -/
structure Environment (α ν κ : Type) where
  payload : α → Value
  number : ν → Number
  /-- The context that a method is given, if it is given one. -/
  context : κ → Option Context
  default : Context

/-- An operation is written as an operator or as a method. -/
inductive Spelling (κ : Type) where
  | operator
  | method (context : κ)

/-- Calculations with open payloads, numbers and contexts, but with known dimensions. -/
inductive Calculation (α ν κ : Type) where
  | quantity (payload : α) (d : Dimensions)
  | number (a : ν)
  | combine (op : Combination) (how : Spelling κ) (a b : Calculation α ν κ)
  | power (how : Spelling κ) (a : Calculation α ν κ) (n : Int)

variable {α ν κ : Type}

namespace Spelling

/-- Combine two operands; a method is one of quantities, with quantities as arguments. -/
def combine (env : Environment α ν κ) (op : Combination) (a b : Operand) :
    Spelling κ → Except Error Operand
  | operator => op.toOperator.apply env.default.strategy a b
  | method context => do
    let s := ((env.context context).getD env.default).strategy
    let q ← Session.asQuantity a
    let r ← Session.asQuantity b
    .ok (.quantity (← op.toOperator.onQuantities s q r))

def power (env : Environment α ν κ) (a : Operand) (n : Int) : Spelling κ → Except Error Operand
  | operator => Operator.pow.apply env.default.strategy a (.value (.integer n))
  | method context => do
    let s := ((env.context context).getD env.default).strategy
    let q ← Session.asQuantity a
    .ok (.quantity (← q.powBy s (.integer n)))

end Spelling

namespace Calculation

/-- The result in an environment, computed from the left, or the first error. -/
def run (env : Environment α ν κ) : Calculation α ν κ → Except Error Operand
  | quantity payload d => .ok (.quantity ⟨env.payload payload, d⟩)
  | number a => .ok (.value (.number (env.number a)))
  | combine op how a b => do how.combine env op (← a.run env) (← b.run env)
  | power how a n => do how.power env (← a.run env) n

def isQuantity : Calculation α ν κ → Bool
  | quantity _ _ => true
  | number _ => false
  | combine _ _ a b => a.isQuantity || b.isQuantity
  | power _ a _ => a.isQuantity

/-- The dimensions of the result, with none for plain numbers. -/
def dimensions : Calculation α ν κ → Dimensions
  | quantity _ d => d
  | number _ => .dimensionless
  | combine op _ a b => op.dimensions a.dimensions b.dimensions
  | power _ a n => a.dimensions ^ n

/-- The exponent of one symbol, from the exponents of that symbol in the leaves. -/
def exponent (ns : Namespace) (s : String) : Calculation α ν κ → Int
  | quantity _ d => d.exponent ns s
  | number _ => 0
  | combine op _ a b => op.exponent (a.exponent ns s) (b.exponent ns s)
  | power _ a n => n * a.exponent ns s

/-- All sums and differences are of one exponent of the symbol. -/
def Balanced (ns : Namespace) (s : String) : Calculation α ν κ → Prop
  | quantity _ _ | number _ => True
  | combine op _ a b =>
    op.Balances (a.exponent ns s) (b.exponent ns s) ∧ a.Balanced ns s ∧ b.Balanced ns s
  | power _ a _ => a.Balanced ns s

@[simp] theorem exponent_dimensions (t : Calculation α ν κ) (ns : Namespace) (s : String) :
    t.dimensions.exponent ns s = t.exponent ns s := by
  induction t with
  | quantity payload d => rfl
  | number a => exact Dimensions.exponent_dimensionless ns s
  | combine op how a b iha ihb => rw [dimensions, op.exponent_dimensions, iha, ihb, exponent]
  | power how a n ih => rw [dimensions, Dimensions.exponent_pow, ih, exponent, Int.mul_comm]

end Calculation

namespace Operand

def isQuantity : Operand → Bool
  | quantity _ => true
  | value _ => false

def dimensions : Operand → Dimensions
  | quantity q => q.dimensions
  | value _ => .dimensionless

theorem dimensions_of_toQuantity? {a : Operand} {q : Quantity} (h : a.toQuantity? = some q) :
    q.dimensions = a.dimensions := by
  unfold toQuantity? at h
  split at h
  · cases h
    rfl
  · cases h
    rfl
  · cases h

theorem asQuantity_eq_ok_iff {a : Operand} {q : Quantity} :
    Session.asQuantity a = .ok q ↔ a = .quantity q := by
  cases a with
  | quantity r => simp [Session.asQuantity]
  | value v => simp [Session.asQuantity]

end Operand

/-- What a successful operation tells about dimensions: they were combined, and sums and
differences were of dimensions that agree. -/
structure Combination.Combines (op : Combination) (a b o : Operand) : Prop where
  isQuantity : o.isQuantity = (a.isQuantity || b.isQuantity)
  dimensions : o.dimensions = op.dimensions a.dimensions b.dimensions
  balances : ∀ ns s, op.Balances (a.dimensions.exponent ns s) (b.dimensions.exponent ns s)

theorem Quantity.combine_eq_ok {op : AdditiveOp} {f : Value → Value → Except Error Value}
    {q r t : Quantity} (h : combine op f q r = .ok t) :
    q.dimensions.agrees r.dimensions = true ∧ t.dimensions = q.dimensions := by
  unfold combine at h
  split at h
  · rename_i hagree
    obtain ⟨v, -, h⟩ := bind_eq_ok_iff.mp h
    cases h
    exact ⟨hagree, rfl⟩
  · cases h

theorem Combination.dimensions_onQuantities {op : Combination} {s : NumericStrategy}
    {q r t : Quantity} (h : op.toOperator.onQuantities s q r = .ok t) :
    t.dimensions = op.dimensions q.dimensions r.dimensions ∧
      ∀ ns x, op.Balances (q.dimensions.exponent ns x) (r.dimensions.exponent ns x) := by
  cases op with
  | add | sub =>
    obtain ⟨hagree, hdimensions⟩ := Quantity.combine_eq_ok h
    exact ⟨hdimensions, fun ns x _ => (Dimensions.agrees_iff_exponent _ _).mp hagree ns x⟩
  | mul | div =>
    obtain ⟨v, -, h⟩ := bind_eq_ok_iff.mp h
    cases h
    exact ⟨rfl, fun ns x hop => by simp at hop⟩

namespace Combination

variable {op : Combination} {env : Environment α ν κ} {a b o : Operand}

theorem combines_quantities {s : NumericStrategy} {q r t : Quantity}
    (ha : a.toQuantity? = some q) (hb : b.toQuantity? = some r)
    (hpart : (a.isQuantity || b.isQuantity) = true)
    (h : op.toOperator.onQuantities s q r = .ok t) : op.Combines a b (.quantity t) := by
  obtain ⟨hdimensions, hbalances⟩ := dimensions_onQuantities h
  rw [Operand.dimensions_of_toQuantity? ha, Operand.dimensions_of_toQuantity? hb] at *
  exact ⟨hpart.symm, hdimensions, hbalances⟩

theorem combines_values (op : Combination) (v w u : Value) :
    op.Combines (.value v) (.value w) (.value u) := by
  constructor
  · rfl
  · cases op <;> rfl
  · intro ns s _
    rfl

/-- Operators combine a quantity with another operand as two quantities, and plain values
among themselves. -/
theorem combines_apply {s : NumericStrategy} (h : op.toOperator.apply s a b = .ok o) :
    op.Combines a b o := by
  cases a with
  | quantity q =>
    rw [Operator.apply_quantity_left op.toOperator_ne_pow] at h
    split at h
    · rename_i r hr
      obtain ⟨t, ht, h⟩ := bind_eq_ok_iff.mp h
      cases h
      exact combines_quantities rfl hr rfl ht
    · cases h
  | value v =>
    cases b with
    | quantity r =>
      rw [Operator.apply_quantity_right op.toOperator_ne_pow] at h
      split at h
      · rename_i q hq
        obtain ⟨t, ht, h⟩ := bind_eq_ok_iff.mp h
        cases h
        exact combines_quantities hq rfl rfl ht
      · cases h
    | value w =>
      obtain ⟨u, -, h⟩ := bind_eq_ok_iff.mp h
      cases h
      exact combines_values op v w u

theorem combines_of_combine {how : Spelling κ} (h : how.combine env op a b = .ok o) :
    op.Combines a b o := by
  cases how with
  | operator => exact combines_apply h
  | method context =>
    obtain ⟨q, hq, h⟩ := bind_eq_ok_iff.mp h
    obtain ⟨r, hr, h⟩ := bind_eq_ok_iff.mp h
    obtain ⟨t, ht, h⟩ := bind_eq_ok_iff.mp h
    cases h
    rw [Operand.asQuantity_eq_ok_iff.mp hq, Operand.asQuantity_eq_ok_iff.mp hr]
    exact combines_quantities rfl rfl rfl ht

end Combination

theorem Quantity.dimensions_pow {s : NumericStrategy} {q t : Quantity} {n : Int}
    (h : q.pow s n = .ok t) : t.dimensions = q.dimensions ^ n := by
  unfold pow at h
  split at h
  · rename_i hn
    obtain ⟨v, -, h⟩ := bind_eq_ok_iff.mp h
    cases h
    subst hn
    rfl
  · obtain ⟨power, -, h⟩ := bind_eq_ok_iff.mp h
    dsimp only at h
    split at h
    · obtain ⟨v, -, h⟩ := bind_eq_ok_iff.mp h
      cases h
      rfl
    · cases h
      rfl

theorem Spelling.dimensions_power {how : Spelling κ} {env : Environment α ν κ} {a o : Operand}
    {n : Int} (h : how.power env a n = .ok o) :
    o.isQuantity = a.isQuantity ∧ o.dimensions = a.dimensions ^ n := by
  cases how with
  | operator =>
    cases a with
    | quantity q =>
      obtain ⟨m, hm, h⟩ := bind_eq_ok_iff.mp h
      cases hm
      obtain ⟨t, ht, h⟩ := bind_eq_ok_iff.mp h
      cases h
      exact ⟨rfl, Quantity.dimensions_pow ht⟩
    | value v =>
      obtain ⟨u, -, h⟩ := bind_eq_ok_iff.mp h
      cases h
      exact ⟨rfl, (Dimensions.dimensionless_pow n).symm⟩
  | method context =>
    obtain ⟨q, hq, h⟩ := bind_eq_ok_iff.mp h
    obtain ⟨t, ht, h⟩ := bind_eq_ok_iff.mp h
    cases h
    rw [Operand.asQuantity_eq_ok_iff.mp hq]
    exact ⟨rfl, Quantity.dimensions_pow ht⟩

namespace Calculation

variable {env env' : Environment α ν κ} {o o' : Operand}

/-- Whatever settles a calculation, its result has the dimensions told from the calculation,
and all sums and differences in it are of one exponent of every symbol. -/
theorem dimensions_of_run {t : Calculation α ν κ} (h : t.run env = .ok o) :
    o.isQuantity = t.isQuantity ∧ o.dimensions = t.dimensions ∧ ∀ ns s, t.Balanced ns s := by
  -- kind, dimensions and balance go together: balance is stated in told exponents, and is
  -- known of the operands' dimensions
  induction t generalizing o with
  | quantity payload d =>
    cases h
    exact ⟨rfl, rfl, fun _ _ => trivial⟩
  | number a =>
    cases h
    exact ⟨rfl, rfl, fun _ _ => trivial⟩
  | combine op how a b iha ihb =>
    obtain ⟨left, hleft, h⟩ := bind_eq_ok_iff.mp h
    obtain ⟨right, hright, h⟩ := bind_eq_ok_iff.mp h
    obtain ⟨hakind, hadims, habalanced⟩ := iha hleft
    obtain ⟨hbkind, hbdims, hbbalanced⟩ := ihb hright
    have hcombines := Combination.combines_of_combine h
    refine ⟨?_, ?_, fun ns s => ⟨?_, habalanced ns s, hbbalanced ns s⟩⟩
    · rw [hcombines.isQuantity, hakind, hbkind, isQuantity]
    · rw [hcombines.dimensions, hadims, hbdims, dimensions]
    · have hbalances := hcombines.balances ns s
      rwa [hadims, hbdims, exponent_dimensions, exponent_dimensions] at hbalances
  | power how a n ih =>
    obtain ⟨base, hbase, h⟩ := bind_eq_ok_iff.mp h
    obtain ⟨hkind, hdims, hbalanced⟩ := ih hbase
    obtain ⟨hkind', hdims'⟩ := Spelling.dimensions_power h
    refine ⟨?_, ?_, hbalanced⟩
    · rw [hkind', hkind, isQuantity]
    · rw [hdims', hdims, dimensions]

/-- Two successful runs of a calculation give the same dimensions, whatever the payloads,
plain numbers, strategies and contexts, and the exponent of a symbol in a namespace is told
from the exponents of that symbol in that namespace. -/
theorem dimensions_independent (t : Calculation α ν κ) (h : t.run env = .ok o)
    (h' : t.run env' = .ok o') :
    o.isQuantity = o'.isQuantity ∧ o.dimensions = o'.dimensions ∧
      ∀ ns s, o.dimensions.exponent ns s = t.exponent ns s ∧ t.Balanced ns s := by
  obtain ⟨hkind, hdims, hbalanced⟩ := dimensions_of_run h
  obtain ⟨hkind', hdims', -⟩ := dimensions_of_run h'
  refine ⟨hkind.trans hkind'.symm, hdims.trans hdims'.symm, fun ns s => ⟨?_, hbalanced ns s⟩⟩
  rw [hdims, exponent_dimensions]

theorem dimensions_of_muted_speed :
    let metre : Dimensions := .single .physical (.ofList [("m", 1)])
    let second : Dimensions := .single .physical (.ofList [("s", 1)])
    let speed : Calculation String Unit Unit :=
      .combine .div (.method ())
        (.combine .add .operator (.quantity "x" metre) (.quantity "y" metre))
        (.quantity "t" second)
    let t : Calculation String Unit Unit :=
      .combine .mul .operator (.number ()) (.power .operator speed (-2))
    let exact : Environment String Unit Unit :=
      { payload := fun _ => .integer 3, number := fun _ => .integer 2,
        context := fun _ => some { strategy := .fraction }, default := {} }
    let mute : NumericStrategy :=
      ⟨"mute", fun _ _ => .ok .absent, fun _ _ => .ok .absent, fun _ _ => .ok .absent,
        fun _ _ => .ok .absent, fun _ _ => .ok .absent, fun _ => .ok .absent, fun _ => .ok .absent⟩
    let muted : Environment String Unit Unit :=
      { payload := .text, number := fun _ => .truth true, context := fun _ => none,
        default := { strategy := mute } }
    ∃ o o', t.run exact = .ok o ∧ t.run muted = .ok o' ∧ o.dimensions = o'.dimensions ∧
      o.dimensions.exponent .physical "m" = -2 ∧ o.dimensions.exponent .physical "s" = 2 := by
  intro metre second speed t exact mute muted
  have hexact : t.run exact = .ok (.quantity ⟨.ratio (1 / 2), t.dimensions⟩) := by
    with_unfolding_all rfl
  have hmuted : t.run muted = .ok (.quantity ⟨.absent, t.dimensions⟩) := rfl
  obtain ⟨-, hdims, hexponents⟩ := t.dimensions_independent hexact hmuted
  exact ⟨_, _, hexact, hmuted, hdims, (hexponents .physical "m").1,
    (hexponents .physical "s").1⟩

end Calculation

end QuantityCalculus
