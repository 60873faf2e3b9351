import Mathlib.Algebra.BigOperators.Ring.List
import Mathlib.Algebra.Order.Field.Basic
import Mathlib.Algebra.Order.Ring.Rat
import Mathlib.Tactic.Ring
import QuantityCalculus.Proofs.Dimension.Exponents
import QuantityCalculus.Proofs.Quantity.Expression
import QuantityCalculus.Proofs.Quantity.Fraction

/-!
# Changes of units

A change of units multiplies every payload by the factors of its units, each raised to
the exponent of that unit. The factor of dimensions turns products, quotients and
powers of dimensions into those of factors, and dimensions that agree have the same
factor. Hence evaluating an expression commutes with a change of units: a rescaled
expression succeeds where the original one does, with the same dimensions and the
payload rescaled, and fails with the same error where that one fails.
-/
namespace QuantityCalculus

namespace DimensionMap

/-- The product of the weights of the symbols, each to its exponent. -/
def weigh (weight : String → Rat) (m : DimensionMap) : Rat :=
  (m.entries.map fun e => weight e.1 ^ e.2).prod

variable {weight : String → Rat} (hweight : ∀ s, weight s ≠ 0)

@[simp] theorem weigh_empty (weight : String → Rat) : weigh weight ∅ = 1 := rfl

include hweight in
theorem prod_bumpEntry (s : String) (k : Int) (entries : List (String × Int)) :
    ((bumpEntry s k entries).map fun e => weight e.1 ^ e.2).prod =
      (entries.map fun e => weight e.1 ^ e.2).prod * weight s ^ k := by
  induction entries with
  | nil => by_cases hk : k = 0 <;> simp [bumpEntry, hk]
  | cons e rest ih =>
    simp only [bumpEntry]
    split
    · rename_i hes
      have hpow : weight e.1 ^ e.2 * weight s ^ k = weight s ^ (e.2 + k) := by
        rw [hes, zpow_add₀ (hweight s)]
      split
      · rename_i hzero
        rw [List.map_cons, List.prod_cons, mul_right_comm, hpow, hzero, zpow_zero, one_mul]
      · rw [List.map_cons, List.prod_cons, List.map_cons, List.prod_cons, mul_right_comm, hpow, hes]
    · rw [List.map_cons, List.prod_cons, List.map_cons, List.prod_cons, ih, mul_assoc]

include hweight in
theorem weigh_bumpAll (m : DimensionMap) (powers : List (String × Int)) :
    (m.bumpAll powers).weigh weight =
      m.weigh weight * (powers.map fun e => weight e.1 ^ e.2).prod := by
  induction powers generalizing m with
  | nil => simp
  | cons p rest ih =>
    have hbump : (m.bump p.1 p.2).weigh weight = m.weigh weight * weight p.1 ^ p.2 :=
      prod_bumpEntry hweight p.1 p.2 m.entries
    rw [bumpAll_cons, ih, hbump, List.map_cons, List.prod_cons, mul_assoc]

include hweight in
theorem weigh_add (a b : DimensionMap) :
    (a + b).weigh weight = a.weigh weight * b.weigh weight :=
  weigh_bumpAll hweight a b.entries

theorem weigh_scale (m : DimensionMap) (n : Int) :
    (m.scale n).weigh weight = m.weigh weight ^ n := by
  unfold scale
  split
  · rename_i hn
    rw [hn, zpow_zero]
    rfl
  · simp only [weigh, scaleNonzero, List.map_map, Function.comp_def, zpow_mul]
    rw [List.prod_zpow, List.map_map]
    rfl

include hweight in
theorem weigh_sub (a b : DimensionMap) :
    (a - b).weigh weight = a.weigh weight / b.weigh weight := by
  change (a + b.scale (-1)).weigh weight = _
  rw [weigh_add hweight, weigh_scale, zpow_neg_one, div_eq_mul_inv]

theorem weigh_eq_of_agrees {a b : DimensionMap} (h : a.agrees b = true) :
    a.weigh weight = b.weigh weight :=
  (((agrees_iff_perm a b).mp h).map _).prod_eq

include hweight in
theorem weigh_ne_zero (m : DimensionMap) : m.weigh weight ≠ 0 := by
  apply List.prod_ne_zero
  intro hmem
  obtain ⟨e, _, he⟩ := List.mem_map.mp hmem
  exact zpow_ne_zero _ (hweight e.1) he

end DimensionMap

/-- A positive factor for every symbol of every namespace. -/
structure UnitChange where
  ratio : Namespace → String → Rat
  positive : ∀ ns s, 0 < ratio ns s

namespace UnitChange

variable (u : UnitChange)

theorem ratio_ne_zero (ns : Namespace) (s : String) : u.ratio ns s ≠ 0 := (u.positive ns s).ne'

/-- The factor of dimensions: that of every unit to the unit's exponent. -/
def factor (d : Dimensions) : Rat :=
  d.physical.weigh (u.ratio .physical) * d.algebraic.weigh (u.ratio .algebraic) *
    d.symbolic.weigh (u.ratio .symbolic)

@[simp] theorem factor_dimensionless : u.factor .dimensionless = 1 := by
  change (1 : Rat) * 1 * 1 = 1
  simp

theorem factor_ne_zero (d : Dimensions) : u.factor d ≠ 0 :=
  mul_ne_zero
    (mul_ne_zero (DimensionMap.weigh_ne_zero (u.ratio_ne_zero _) _)
      (DimensionMap.weigh_ne_zero (u.ratio_ne_zero _) _))
    (DimensionMap.weigh_ne_zero (u.ratio_ne_zero _) _)

theorem factor_mul (a b : Dimensions) : u.factor (a * b) = u.factor a * u.factor b := by
  change (a.physical + b.physical).weigh _ * (a.algebraic + b.algebraic).weigh _ *
    (a.symbolic + b.symbolic).weigh _ = _
  rw [DimensionMap.weigh_add (u.ratio_ne_zero _), DimensionMap.weigh_add (u.ratio_ne_zero _),
    DimensionMap.weigh_add (u.ratio_ne_zero _), factor, factor]
  ring

theorem factor_div (a b : Dimensions) : u.factor (a / b) = u.factor a / u.factor b := by
  change (a.physical - b.physical).weigh _ * (a.algebraic - b.algebraic).weigh _ *
    (a.symbolic - b.symbolic).weigh _ = _
  rw [DimensionMap.weigh_sub (u.ratio_ne_zero _), DimensionMap.weigh_sub (u.ratio_ne_zero _),
    DimensionMap.weigh_sub (u.ratio_ne_zero _), factor, factor, div_mul_div_comm, div_mul_div_comm]

theorem factor_pow (a : Dimensions) (n : Int) : u.factor (a ^ n) = u.factor a ^ n := by
  change (a.physical.scale n).weigh _ * (a.algebraic.scale n).weigh _ *
    (a.symbolic.scale n).weigh _ = _
  rw [DimensionMap.weigh_scale, DimensionMap.weigh_scale, DimensionMap.weigh_scale, factor,
    mul_zpow, mul_zpow]

theorem factor_eq_of_agrees {a b : Dimensions} (h : a.agrees b = true) :
    u.factor a = u.factor b := by
  simp only [Dimensions.agrees, Bool.and_eq_true] at h
  rw [factor, factor, DimensionMap.weigh_eq_of_agrees h.1.1, DimensionMap.weigh_eq_of_agrees h.1.2,
    DimensionMap.weigh_eq_of_agrees h.2]

/-- A leaf of a rescaled expression: the payload of a quantity is multiplied by the factor
of its dimensions, and a plain number stays. -/
def rescaleLeaf : ExactOperand → ExactOperand
  | .quantity payload d => .quantity (.ratio (payload.toRat * u.factor d)) d
  | .number a => .number a

/-- The quantities have the same dimensions, and payloads that read alike up to the factor. -/
structure Matches (q r : Quantity) : Prop where
  dimensions : r.dimensions = q.dimensions
  payload : r.value.toRatio = q.value.toRatio.map (· * u.factor q.dimensions)

/-- How results before and after a change of units belong together. -/
inductive Rescales : Operand → Operand → Prop
  | quantity {v : Value} {d : Dimensions} {x : Rat} (h : v.toRatio = .ok x) :
      Rescales (.quantity ⟨v, d⟩) (.quantity ⟨.ratio (x * u.factor d), d⟩)
  | value (v : Value) : Rescales (.value v) (.value v)

inductive RescalesOutcome : Except Error Operand → Except Error Operand → Prop
  | ok {a b : Operand} (h : u.Rescales a b) : RescalesOutcome (.ok a) (.ok b)
  | error (e : Error) : RescalesOutcome (.error e) (.error e)

def asOutcome (q : Except Error Quantity) : Except Error Operand := do .ok (.quantity (← q))

variable {u} {q q' r r' : Quantity} {a a' b b' : Operand}

theorem rescalesOutcome_ratio {x y : Rat} {d : Dimensions} (h : y = x * u.factor d) :
    u.RescalesOutcome (asOutcome (.ok ⟨.ratio x, d⟩)) (asOutcome (.ok ⟨.ratio y, d⟩)) := by
  subst h
  exact .ok (.quantity rfl)

/-- Payloads are read on both sides alike, so it is enough to compare what is done with them. -/
theorem rescalesOutcome_read {k k' : Rat → Rat → Except Error Quantity}
    (hq : u.Matches q q') (hr : u.Matches r r')
    (h : ∀ x y, u.RescalesOutcome (asOutcome (k x y))
      (asOutcome (k' (x * u.factor q.dimensions) (y * u.factor r.dimensions)))) :
    u.RescalesOutcome
      (asOutcome (do k (← q.value.toRatio) (← r.value.toRatio)))
      (asOutcome (do k' (← q'.value.toRatio) (← r'.value.toRatio))) := by
  rw [hq.payload, hr.payload]
  cases q.value.toRatio with
  | error e => exact .error e
  | ok x =>
    cases r.value.toRatio with
    | error e => exact .error e
    | ok y => exact h x y

/-- Of two payloads with the same dimensions, any combination may be taken that a common
factor can be moved out of. -/
theorem rescalesOutcome_combine (op : AdditiveOp) {f : Rat → Rat → Rat}
    (hf : ∀ x y c, f (x * c) (y * c) = f x y * c)
    (hq : u.Matches q q') (hr : u.Matches r r') :
    let g : Value → Value → Except Error Value :=
      fun v w => do .ok (.ratio (f (← v.toRatio) (← w.toRatio)))
    u.RescalesOutcome (asOutcome (Quantity.combine op g q r))
      (asOutcome (Quantity.combine op g q' r')) := by
  intro g
  rw [Quantity.combine_exact, Quantity.combine_exact, hq.dimensions, hr.dimensions]
  split
  · rename_i hagree
    apply rescalesOutcome_read hq hr
    intro x y
    apply rescalesOutcome_ratio
    rw [← u.factor_eq_of_agrees hagree, hf]
  · exact .error _

theorem rescalesOutcome_add (hq : u.Matches q q') (hr : u.Matches r r') :
    u.RescalesOutcome (asOutcome (q.add .fraction r)) (asOutcome (q'.add .fraction r')) :=
  rescalesOutcome_combine .addition (fun x y c => (add_mul x y c).symm) hq hr

theorem rescalesOutcome_sub (hq : u.Matches q q') (hr : u.Matches r r') :
    u.RescalesOutcome (asOutcome (q.sub .fraction r)) (asOutcome (q'.sub .fraction r')) :=
  rescalesOutcome_combine .subtraction (fun x y c => (sub_mul x y c).symm) hq hr

theorem rescalesOutcome_mul (hq : u.Matches q q') (hr : u.Matches r r') :
    u.RescalesOutcome (asOutcome (q.mul .fraction r)) (asOutcome (q'.mul .fraction r')) := by
  rw [Quantity.mul_fraction, Quantity.mul_fraction, hq.dimensions, hr.dimensions]
  apply rescalesOutcome_read hq hr
  intro x y
  apply rescalesOutcome_ratio
  rw [u.factor_mul]
  ring

theorem rescalesOutcome_div (hq : u.Matches q q') (hr : u.Matches r r') :
    u.RescalesOutcome (asOutcome (q.div .fraction r)) (asOutcome (q'.div .fraction r')) := by
  rw [Quantity.div_fraction, Quantity.div_fraction, hq.dimensions, hr.dimensions]
  apply rescalesOutcome_read hq hr
  intro x y
  have hzero : y * u.factor r.dimensions = 0 ↔ y = 0 := by simp [u.factor_ne_zero]
  simp only [hzero]
  split
  · exact .error _
  · apply rescalesOutcome_ratio
    rw [u.factor_div, mul_div_mul_comm]

theorem rescalesOutcome_pow (hq : u.Matches q q') (n : Int) :
    u.RescalesOutcome (asOutcome (q.pow .fraction n)) (asOutcome (q'.pow .fraction n)) := by
  by_cases hn : n = 0
  · subst hn
    rw [Quantity.pow_fraction_zero, Quantity.pow_fraction_zero]
    apply rescalesOutcome_ratio
    simp
  · rw [Quantity.pow_fraction _ hn, Quantity.pow_fraction _ hn, hq.dimensions, hq.payload]
    cases q.value.toRatio with
    | error e => exact .error e
    | ok x =>
      have hzero : x * u.factor q.dimensions = 0 ↔ x = 0 := by simp [u.factor_ne_zero]
      simp only [Except.map, bind, Except.bind, hzero]
      split
      · exact .error _
      · apply rescalesOutcome_ratio
        rw [u.factor_pow, mul_zpow]

/-- Operands stand for quantities before a change of units just when they do afterwards. -/
theorem toQuantity?_rescales (h : u.Rescales a a') :
    (a.toQuantity? = none ∧ a'.toQuantity? = none) ∨
      ∃ q q', a.toQuantity? = some q ∧ a'.toQuantity? = some q' ∧ u.Matches q q' := by
  cases h with
  | @quantity v d x hx =>
    exact .inr ⟨_, _, rfl, rfl, rfl, by rw [hx]; rfl⟩
  | value v =>
    cases v with
    | number a =>
      refine .inr ⟨_, _, rfl, rfl, rfl, ?_⟩
      change _ = (Value.number a).toRatio.map (· * u.factor .dimensionless)
      cases h : (Value.number a).toRatio <;> simp [Quantity.dimensionless, h, Except.map]
    | absent | text | list | map => exact .inl ⟨rfl, rfl⟩

theorem rescalesOutcome_value (v : Except Error Value) :
    u.RescalesOutcome (do .ok (.value (← v))) (do .ok (.value (← v))) := by
  cases v with
  | error e => exact .error e
  | ok v => exact .ok (.value v)

/-- Operators other than the power respect a change of units as soon as their operation on
quantities does. -/
theorem rescalesOutcome_apply {op : Operator} (hop : op ≠ .pow)
    (hquantities : ∀ {q q' r r'}, u.Matches q q' → u.Matches r r' →
      u.RescalesOutcome (asOutcome (op.onQuantities .fraction q r))
        (asOutcome (op.onQuantities .fraction q' r')))
    (ha : u.Rescales a a') (hb : u.Rescales b b') :
    u.RescalesOutcome (op.apply .fraction a b) (op.apply .fraction a' b') := by
  have hleft := toQuantity?_rescales ha
  have hright := toQuantity?_rescales hb
  -- one quantity is enough to make the operator one of quantities
  cases ha with
  | quantity hx =>
    rw [Operator.apply_quantity_left hop, Operator.apply_quantity_left hop]
    obtain ⟨hnone, -⟩ | ⟨q, q', hq, hq', hmatch⟩ := hleft
    · cases hnone
    · cases hq
      cases hq'
      obtain ⟨hr, hr'⟩ | ⟨r, r', hr, hr', hmatch'⟩ := hright
      · rw [hr, hr']
        exact .error _
      · rw [hr, hr']
        exact hquantities hmatch hmatch'
  | value v =>
    cases hb with
    | quantity hx =>
      rw [Operator.apply_quantity_right hop, Operator.apply_quantity_right hop]
      obtain ⟨hnone, -⟩ | ⟨r, r', hr, hr', hmatch'⟩ := hright
      · cases hnone
      · cases hr
        cases hr'
        obtain ⟨hq, hq'⟩ | ⟨q, q', hq, hq', hmatch⟩ := hleft
        · rw [hq]
          exact .error _
        · rw [hq]
          exact hquantities (by simp_all) hmatch'
    | value w => exact rescalesOutcome_value (op.onValues v w)

theorem rescalesOutcome_apply_pow (ha : u.Rescales a a') (n : Int) :
    u.RescalesOutcome (Operator.pow.apply .fraction a (.value (.integer n)))
      (Operator.pow.apply .fraction a' (.value (.integer n))) := by
  have hread := toQuantity?_rescales ha
  cases ha with
  | quantity hx =>
    obtain ⟨hnone, -⟩ | ⟨q, q', hq, hq', hmatch⟩ := hread
    · cases hnone
    · cases hq
      cases hq'
      exact rescalesOutcome_pow hmatch n
  | value v => exact rescalesOutcome_value (v.raise (.integer n))

theorem rescalesOutcome_bind {f f' : Operand → Except Error Operand}
    {o o' : Except Error Operand} (ho : u.RescalesOutcome o o')
    (h : ∀ {a a'}, u.Rescales a a' → u.RescalesOutcome (f a) (f' a')) :
    u.RescalesOutcome (o >>= f) (o' >>= f') := by
  cases ho with
  | ok ha => exact h ha
  | error e => exact .error e

theorem rescalesOutcome_operate {op : Operator} (hop : op ≠ .pow)
    (hquantities : ∀ {q q' r r'}, u.Matches q q' → u.Matches r r' →
      u.RescalesOutcome (asOutcome (op.onQuantities .fraction q r))
        (asOutcome (op.onQuantities .fraction q' r')))
    {o o' p p' : Except Error Operand} (ho : u.RescalesOutcome o o') (hp : u.RescalesOutcome p p') :
    u.RescalesOutcome (do op.apply .fraction (← o) (← p)) (do op.apply .fraction (← o') (← p')) :=
  rescalesOutcome_bind ho fun ha =>
    rescalesOutcome_bind hp fun hb => rescalesOutcome_apply hop hquantities ha hb

/-- What holds of an expression holds by one step for every operation. -/
theorem rescalesOutcome_evaluate (e : Expression ExactOperand) :
    u.RescalesOutcome (e.evaluate .fraction ExactOperand.toOperand)
      ((e.map u.rescaleLeaf).evaluate .fraction ExactOperand.toOperand) := by
  induction e with
  | leaf a =>
    cases a with
    | quantity payload d => exact .ok (.quantity payload.toRatio_toValue)
    | number a => exact .ok (.value a.toValue)
  | add a b iha ihb => exact rescalesOutcome_operate (by decide) rescalesOutcome_add iha ihb
  | sub a b iha ihb => exact rescalesOutcome_operate (by decide) rescalesOutcome_sub iha ihb
  | mul a b iha ihb => exact rescalesOutcome_operate (by decide) rescalesOutcome_mul iha ihb
  | div a b iha ihb => exact rescalesOutcome_operate (by decide) rescalesOutcome_div iha ihb
  | pow a n ih => exact rescalesOutcome_bind ih fun ha => rescalesOutcome_apply_pow ha n

/-- Evaluating an exact expression commutes with a change of units. -/
theorem evaluate_rescaled (u : UnitChange) (e : Expression ExactOperand) :
    let original := e.evaluate .fraction ExactOperand.toOperand
    let rescaled := (e.map u.rescaleLeaf).evaluate .fraction ExactOperand.toOperand
    ((∃ b, rescaled = .ok b) ↔ ∃ a, original = .ok a) ∧
      (∀ q, original = .ok (.quantity q) → ∃ x, q.value.toRatio = .ok x ∧
        rescaled = .ok (.quantity ⟨.ratio (x * u.factor q.dimensions), q.dimensions⟩)) ∧
      (∀ v, original = .ok (.value v) → rescaled = .ok (.value v)) ∧
      ∀ error, original = .error error → rescaled = .error error := by
  intro original rescaled
  have h : u.RescalesOutcome original rescaled := rescalesOutcome_evaluate e
  clear_value original rescaled
  cases h with
  | error e => simp
  | ok h =>
    cases h with
    | @quantity v d x hx =>
      refine ⟨by simp, ?_, by simp, by simp⟩
      intro q hq
      cases hq
      exact ⟨x, hx, rfl⟩
    | value v => simp

end UnitChange

end QuantityCalculus
