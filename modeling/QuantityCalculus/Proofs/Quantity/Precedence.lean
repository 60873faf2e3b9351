import QuantityCalculus.Proofs.Quantity.Calculation
import QuantityCalculus.Proofs.Quantity.Mismatch

/-!
# Dimensions before payloads

A sum or a difference compares dimensions first, and the comparison is of exponents: neither
the order of the symbols nor the way in which the dimensions came about plays a part. Payloads
of like dimensions are left to the strategy, with its failures. Unlike dimensions are refused
by an error in which neither payload nor strategy occurs, so no failure of theirs can precede
it. The operands may be calculations of any kind; their exponents can then be told in advance.
-/
namespace QuantityCalculus

namespace AdditiveOp

def toCombination : AdditiveOp → Combination
  | addition => .add
  | subtraction => .sub

def onPayloads (op : AdditiveOp) (s : NumericStrategy) : Value → Value → Except Error Value :=
  match op with
  | addition => s.add
  | subtraction => s.sub

end AdditiveOp

variable {α ν κ : Type}

/-- A method computes under the context that it is given, if any, and an operator under the
default one. -/
def Spelling.strategy (env : Environment α ν κ) : Spelling κ → NumericStrategy
  | operator => env.default.strategy
  | method context => ((env.context context).getD env.default).strategy

theorem Spelling.combine_quantities (how : Spelling κ) (env : Environment α ν κ)
    (op : AdditiveOp) (a b : Quantity) :
    how.combine env op.toCombination (.quantity a) (.quantity b) =
      (Quantity.combine op (op.onPayloads (how.strategy env)) a b).map .quantity := by
  cases how <;> cases op <;> rfl

/-- Every symbol of every namespace has the same exponent. -/
def Dimensions.Like (a b : Dimensions) : Prop := ∀ ns x, a.exponent ns x = b.exponent ns x

theorem Quantity.combine_of_like {op : AdditiveOp} {f : Value → Value → Except Error Value}
    {a b : Quantity} (h : a.dimensions.Like b.dimensions) :
    combine op f a b = (f a.value b.value).map (⟨·, a.dimensions⟩) := by
  rw [combine, if_pos ((Dimensions.agrees_iff_exponent _ _).mpr h)]
  exact bind_ok_eq_map

namespace Calculation

variable {t u : Calculation α ν κ} {env : Environment α ν κ} {a b : Quantity}

theorem dimensions_of_quantity (h : t.run env = .ok (.quantity a)) :
    a.dimensions = t.dimensions := (dimensions_of_run h).2.1

theorem like_of_exponents (h : ∀ ns x, t.exponent ns x = u.exponent ns x) :
    t.dimensions.Like u.dimensions := by
  intro ns x
  rw [exponent_dimensions, exponent_dimensions, h ns x]

theorem unlike_of_exponents (h : ∃ ns x, t.exponent ns x ≠ u.exponent ns x) :
    t.dimensions.Unlike u.dimensions := by
  obtain ⟨ns, x, hx⟩ := h
  refine ⟨ns, x, ?_⟩
  rwa [exponent_dimensions, exponent_dimensions]

theorem run_combine (op : AdditiveOp) (how : Spelling κ) (ht : t.run env = .ok (.quantity a))
    (hu : u.run env = .ok (.quantity b)) :
    (combine op.toCombination how t u).run env =
      (Quantity.combine op (op.onPayloads (how.strategy env)) a b).map .quantity := by
  rw [run, ht, hu]
  exact how.combine_quantities env op a b

theorem run_combine_of_like (op : AdditiveOp) (how : Spelling κ)
    (ht : t.run env = .ok (.quantity a)) (hu : u.run env = .ok (.quantity b))
    (h : t.dimensions.Like u.dimensions) :
    (combine op.toCombination how t u).run env =
      (op.onPayloads (how.strategy env) a.value b.value).map (.quantity ⟨·, t.dimensions⟩) := by
  have hlike : a.dimensions.Like b.dimensions := by
    rwa [dimensions_of_quantity ht, dimensions_of_quantity hu]
  rw [run_combine op how ht hu, Quantity.combine_of_like hlike, dimensions_of_quantity ht]
  cases op.onPayloads (how.strategy env) a.value b.value <;> rfl

theorem run_combine_of_unlike (op : AdditiveOp) (how : Spelling κ)
    (ht : t.run env = .ok (.quantity a)) (hu : u.run env = .ok (.quantity b))
    (h : t.dimensions.Unlike u.dimensions) :
    (combine op.toCombination how t u).run env =
      .error (Quantity.incompatible op t.dimensions u.dimensions) := by
  have hunlike : a.dimensions.Unlike b.dimensions := by
    rwa [dimensions_of_quantity ht, dimensions_of_quantity hu]
  rw [run_combine op how ht hu, Quantity.combine_of_unlike hunlike, dimensions_of_quantity ht,
    dimensions_of_quantity hu]
  rfl

end Calculation

namespace Quantity

/-- Like dimensions leave a sum or a difference to the strategy, and unlike ones refuse it
whatever the payloads and the strategy. So it is for operands that were calculated, in any
context, with the exponents told from the calculations. -/
theorem dimensions_compared_first :
    (∀ d e : Dimensions,
      (d.Like e → ∀ s v w,
        add s ⟨v, d⟩ ⟨w, e⟩ = (s.add v w).map (⟨·, d⟩) ∧
        sub s ⟨v, d⟩ ⟨w, e⟩ = (s.sub v w).map (⟨·, d⟩)) ∧
      (d.Unlike e → ∀ s v w,
        add s ⟨v, d⟩ ⟨w, e⟩ = .error (incompatible .addition d e) ∧
        sub s ⟨v, d⟩ ⟨w, e⟩ = .error (incompatible .subtraction d e))) ∧
    ∀ (α ν κ : Type) (t u : Calculation α ν κ) (op : AdditiveOp) (how : Spelling κ)
      (env : Environment α ν κ) (a b : Quantity),
      t.run env = .ok (.quantity a) → u.run env = .ok (.quantity b) →
      ((∀ ns x, t.exponent ns x = u.exponent ns x) →
        (Calculation.combine op.toCombination how t u).run env =
          (op.onPayloads (how.strategy env) a.value b.value).map (.quantity ⟨·, t.dimensions⟩)) ∧
      ((∃ ns x, t.exponent ns x ≠ u.exponent ns x) →
        (Calculation.combine op.toCombination how t u).run env =
          .error (incompatible op t.dimensions u.dimensions)) := by
  constructor
  · intro d e
    constructor
    · intro hlike s v w
      exact ⟨combine_of_like hlike, combine_of_like hlike⟩
    · intro hunlike s v w
      exact ⟨combine_of_unlike hunlike, combine_of_unlike hunlike⟩
  · intro α ν κ t u op how env a b ht hu
    constructor
    · intro h
      exact Calculation.run_combine_of_like op how ht hu (Calculation.like_of_exponents h)
    · intro h
      exact Calculation.run_combine_of_unlike op how ht hu (Calculation.unlike_of_exponents h)

/-- Seconds that cancel leave metres, which add to metres exactly. Less seconds, the metres
are refused for their dimensions, by a strategy that refuses all sums and differences. -/
theorem distances_compared_first :
    let metre : Dimensions := .single .physical (.ofList [("m", 1)])
    let second : Dimensions := .single .physical (.ofList [("s", 1)])
    let speed : Dimensions := .single .physical (.ofList [("s", -1), ("m", 1)])
    let travelled : Calculation Unit Unit Unit :=
      .combine .mul (.method ()) (.quantity () second) (.quantity () speed)
    let distance : Calculation Unit Unit Unit := .quantity () metre
    let time : Calculation Unit Unit Unit := .quantity () second
    let exact : Environment Unit Unit Unit :=
      { payload := fun _ => .integer 3, number := fun _ => .integer 0,
        context := fun _ => some { strategy := .fraction }, default := {} }
    let strict : NumericStrategy :=
      { NumericStrategy.fraction with
        add := fun _ _ => .error .operandType, sub := fun _ _ => .error .operandType }
    let refusing : Environment Unit Unit Unit :=
      { exact with context := fun _ => none, default := { strategy := strict } }
    (Calculation.combine .add (.method ()) travelled distance).run exact =
        .ok (.quantity ⟨.ratio 12, metre⟩) ∧
      (Calculation.combine .sub .operator travelled distance).run refusing =
        .error .operandType ∧
      (Calculation.combine .sub .operator travelled time).run refusing =
        .error (incompatible .subtraction metre second) := by
  intro metre second speed travelled distance time exact strict refusing
  have hexact : travelled.run exact = .ok (.quantity ⟨.ratio 9, metre⟩) := by
    with_unfolding_all rfl
  have hrefusing : travelled.run refusing = .ok (.quantity ⟨.ratio 9, metre⟩) := by
    with_unfolding_all rfl
  have hlike : ∀ ns x, travelled.exponent ns x = distance.exponent ns x := by
    intro ns x
    rw [← Calculation.exponent_dimensions]
    rfl
  have hunlike : ∃ ns x, travelled.exponent ns x ≠ time.exponent ns x :=
    ⟨.physical, "m", by decide⟩
  have hsum := (dimensions_compared_first.2 _ _ _ travelled distance .addition (.method ())
    exact _ _ hexact rfl).1 hlike
  have hdifference := (dimensions_compared_first.2 _ _ _ travelled distance .subtraction
    .operator refusing _ _ hrefusing rfl).1 hlike
  have hrefused := (dimensions_compared_first.2 _ _ _ travelled time .subtraction .operator
    refusing _ _ hrefusing rfl).2 hunlike
  refine ⟨hsum.trans ?_, hdifference.trans ?_, hrefused⟩
  · with_unfolding_all rfl
  · rfl

end Quantity

end QuantityCalculus
