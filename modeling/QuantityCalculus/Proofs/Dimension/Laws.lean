import Mathlib.Tactic.Ring
import QuantityCalculus.Proofs.Dimension.Entries

/-!
# The laws of dimensions

What dimensions denote is an integer for every symbol of every namespace, and they agree
exactly when they denote the same. Products, quotients and powers of dimensions add,
subtract and multiply these integers, whatever entries vanish or come back on the way, so
dimensions are an abelian group up to agreement, and integers act on it as powers.
-/
namespace QuantityCalculus

theorem DimensionMap.scale_empty (n : Int) : (∅ : DimensionMap).scale n = ∅ := by
  unfold scale
  split
  · rfl
  · apply DimensionMap.ext
    rfl

theorem Namespace.forall_iff {p : Namespace → Prop} :
    (∀ ns, p ns) ↔ p .physical ∧ p .algebraic ∧ p .symbolic := by
  constructor
  · intro h
    exact ⟨h .physical, h .algebraic, h .symbolic⟩
  · rintro ⟨hphysical, halgebraic, hsymbolic⟩ ns
    cases ns with
    | physical => exact hphysical
    | algebraic => exact halgebraic
    | symbolic => exact hsymbolic

namespace Dimensions

variable (a b c : Dimensions) (n m : Int) (ns : Namespace) (s : String)

@[simp] theorem exponent_mul : (a * b).exponent ns s = a.exponent ns s + b.exponent ns s := by
  rw [exponent, get_mul, DimensionMap.exponent_add]
  rfl

@[simp] theorem exponent_div : (a / b).exponent ns s = a.exponent ns s - b.exponent ns s := by
  rw [exponent, get_div, DimensionMap.exponent_sub]
  rfl

@[simp] theorem exponent_pow : (a ^ n).exponent ns s = a.exponent ns s * n := by
  rw [exponent, get_pow, DimensionMap.exponent_scale]
  rfl

@[simp] theorem exponent_dimensionless : dimensionless.exponent ns s = 0 := by
  cases ns <;> rfl

theorem dimensionless_pow : dimensionless ^ n = dimensionless := by
  change (⟨DimensionMap.scale ∅ n, DimensionMap.scale ∅ n, DimensionMap.scale ∅ n⟩ :
    Dimensions) = _
  rw [DimensionMap.scale_empty]
  rfl

theorem agrees_iff_get : a.agrees b = true ↔ ∀ ns, (a.get ns).agrees (b.get ns) = true := by
  simp only [agrees, Bool.and_eq_true, and_assoc, Namespace.forall_iff]
  rfl

theorem agrees_iff_exponent :
    a.agrees b = true ↔ ∀ ns s, a.exponent ns s = b.exponent ns s := by
  simp only [agrees_iff_get, DimensionMap.agrees_iff_exponent]
  rfl

theorem mul_assoc_agrees : (a * b * c).agrees (a * (b * c)) := by
  rw [agrees_iff_exponent]
  intro ns s
  simp only [exponent_mul]
  ring

theorem mul_comm_agrees : (a * b).agrees (b * a) := by
  rw [agrees_iff_exponent]
  intro ns s
  simp only [exponent_mul]
  ring

theorem mul_dimensionless_agrees : (a * dimensionless).agrees a := by
  rw [agrees_iff_exponent]
  simp

theorem dimensionless_mul_agrees : (dimensionless * a).agrees a := by
  rw [agrees_iff_exponent]
  simp

theorem div_agrees_mul_inverse : (a / b).agrees (a * b ^ (-1 : Int)) := by
  rw [agrees_iff_exponent]
  intro ns s
  simp only [exponent_div, exponent_mul, exponent_pow]
  ring

theorem div_self_agrees : (a / a).agrees dimensionless := by
  rw [agrees_iff_exponent]
  simp

theorem mul_div_cancel_agrees : (a * b / b).agrees a := by
  rw [agrees_iff_exponent]
  simp

theorem pow_pow_agrees : ((a ^ n) ^ m).agrees (a ^ (n * m)) := by
  rw [agrees_iff_exponent]
  intro ns s
  simp only [exponent_pow]
  ring

theorem pow_mul_pow_agrees : (a ^ n * a ^ m).agrees (a ^ (n + m)) := by
  rw [agrees_iff_exponent]
  intro ns s
  simp only [exponent_mul, exponent_pow]
  ring

theorem mul_pow_agrees : ((a * b) ^ n).agrees (a ^ n * b ^ n) := by
  rw [agrees_iff_exponent]
  intro ns s
  simp only [exponent_mul, exponent_pow]
  ring

theorem neg_pow_agrees : (a ^ (-n)).agrees (dimensionless / a ^ n) := by
  rw [agrees_iff_exponent]
  intro ns s
  simp only [exponent_div, exponent_pow, exponent_dimensionless]
  ring

/-- Factors on the left cancel: no dimensions come to agree by a product. -/
theorem mul_agrees_mul_left : (a * b).agrees (a * c) = b.agrees c := by
  rw [Bool.eq_iff_iff, agrees_iff_exponent, agrees_iff_exponent]
  simp

theorem div_agrees_div_right : (b / a).agrees (c / a) = b.agrees c := by
  rw [Bool.eq_iff_iff, agrees_iff_exponent, agrees_iff_exponent]
  simp

/-- Dimensions are an abelian group up to agreement, and integers, which are always
accepted as exponents, act on it as powers. -/
theorem abelian_group_with_powers :
    ((a * b * c).agrees (a * (b * c)) ∧ (a * b).agrees (b * a) ∧
      (a * dimensionless).agrees a ∧ (dimensionless * a).agrees a ∧
      (a / b).agrees (a * b ^ (-1 : Int)) ∧ (a / a).agrees dimensionless ∧
      (a * b / b).agrees a) ∧
    a.powBy (.integer n) = .ok (a ^ n) ∧ ((a ^ n) ^ m).agrees (a ^ (n * m)) ∧
      (a ^ n * a ^ m).agrees (a ^ (n + m)) ∧ ((a * b) ^ n).agrees (a ^ n * b ^ n) :=
  ⟨⟨a.mul_assoc_agrees b c, a.mul_comm_agrees b, a.mul_dimensionless_agrees,
      a.dimensionless_mul_agrees, a.div_agrees_mul_inverse b, a.div_self_agrees,
      a.mul_div_cancel_agrees b⟩,
    a.powBy_integer n, a.pow_pow_agrees n m, a.pow_mul_pow_agrees n m, a.mul_pow_agrees b n⟩

end Dimensions

end QuantityCalculus
