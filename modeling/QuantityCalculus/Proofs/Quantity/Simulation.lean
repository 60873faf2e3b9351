import QuantityCalculus.Proofs.Outcome
import QuantityCalculus.Proofs.Quantity.Expression

/-!
# Strategies that simulate each other

Fix a relation between payloads. One strategy simulates another if on related payloads each
operation gives related results under both or the same error. Then so do the operations on
quantities, with equal dimensions, and evaluating expressions whose leaves are related.
Expressions without quotients need nothing of how the strategies divide.
-/
namespace QuantityCalculus

/-- Whatever the two strategies do with related payloads corresponds, quotients apart. -/
structure Simulates (R : Value → Value → Prop) (s t : NumericStrategy) : Prop where
  add {v v' w w' : Value} : R v v' → R w w' → Corresponds R (s.add v w) (t.add v' w')
  sub {v v' w w' : Value} : R v v' → R w w' → Corresponds R (s.sub v w) (t.sub v' w')
  mul {v v' w w' : Value} : R v v' → R w w' → Corresponds R (s.mul v w) (t.mul v' w')
  pow {v v' : Value} (k : Nat) :
    R v v' → Corresponds R (s.pow v (.integer k)) (t.pow v' (.integer k))
  one {v v' : Value} : R v v' → Corresponds R (s.one v) (t.one v')

structure SimulatesQuotients (R : Value → Value → Prop) (s t : NumericStrategy) : Prop where
  div {v v' w w' : Value} : R v v' → R w w' → Corresponds R (s.div v w) (t.div v' w')
  reciprocal {v v' : Value} : R v v' → Corresponds R (s.reciprocal v) (t.reciprocal v')

namespace Quantity

structure Matches (R : Value → Value → Prop) (q q' : Quantity) : Prop where
  value : R q.value q'.value
  dimensions : q.dimensions = q'.dimensions

variable {R : Value → Value → Prop} {s t : NumericStrategy} {q q' r r' : Quantity}

theorem corresponds_measured {x y : Except Error Value} (h : Corresponds R x y)
    (d : Dimensions) :
    Corresponds (Matches R) (do .ok ⟨← x, d⟩) (do .ok ⟨← y, d⟩) :=
  h.bind fun _ _ hvalue => .ok ⟨hvalue, rfl⟩

theorem corresponds_combine (op : AdditiveOp) {f g : Value → Value → Except Error Value}
    (hq : Matches R q q') (hr : Matches R r r')
    (h : Corresponds R (f q.value r.value) (g q'.value r'.value)) :
    Corresponds (Matches R) (combine op f q r) (combine op g q' r') := by
  unfold combine
  rw [hq.dimensions, hr.dimensions]
  split
  · exact corresponds_measured h _
  · exact .error _

variable (hs : Simulates R s t) (hq : Matches R q q') (hr : Matches R r r')

include hs hq hr

theorem corresponds_add : Corresponds (Matches R) (q.add s r) (q'.add t r') :=
  corresponds_combine .addition hq hr (hs.add hq.value hr.value)

theorem corresponds_sub : Corresponds (Matches R) (q.sub s r) (q'.sub t r') :=
  corresponds_combine .subtraction hq hr (hs.sub hq.value hr.value)

theorem corresponds_mul : Corresponds (Matches R) (q.mul s r) (q'.mul t r') := by
  unfold mul
  rw [hq.dimensions, hr.dimensions]
  exact corresponds_measured (hs.mul hq.value hr.value) _

omit hs in
theorem corresponds_div (hquotients : SimulatesQuotients R s t) :
    Corresponds (Matches R) (q.div s r) (q'.div t r') := by
  unfold div
  rw [hq.dimensions, hr.dimensions]
  exact corresponds_measured (hquotients.div hq.value hr.value) _

omit hr in
/-- Only negative powers divide. -/
theorem corresponds_pow {n : Int} (hn : 0 ≤ n ∨ SimulatesQuotients R s t) :
    Corresponds (Matches R) (q.pow s n) (q'.pow t n) := by
  unfold pow
  rw [hq.dimensions]
  split
  · exact corresponds_measured (hs.one hq.value) _
  · apply (hs.pow n.natAbs hq.value).bind
    intro v w hvw
    dsimp only
    split
    · have hquotients := hn.resolve_left (by omega)
      exact corresponds_measured (hquotients.reciprocal hvw) _
    · exact .ok ⟨hvw, rfl⟩

end Quantity

inductive Operand.Matches (R : Value → Value → Prop) : Operand → Operand → Prop where
  | quantity {q q' : Quantity} (h : q.Matches R q') : Matches R (.quantity q) (.quantity q')

theorem Corresponds.error_or_quantities {R : Value → Value → Prop} {x y : Except Error Operand}
    (h : Corresponds (Operand.Matches R) x y) :
    (∃ error, x = .error error ∧ y = .error error) ∨
      ∃ v w d, x = .ok (.quantity ⟨v, d⟩) ∧ y = .ok (.quantity ⟨w, d⟩) ∧ R v w := by
  cases h with
  | error e => exact .inl ⟨e, rfl, rfl⟩
  | ok h =>
    cases h with
    | @quantity q q' h =>
      obtain ⟨v, d⟩ := q
      obtain ⟨w, d'⟩ := q'
      obtain rfl : d = d' := h.dimensions
      exact .inr ⟨v, w, d, rfl, rfl, h.value⟩

namespace Expression

variable {α : Type} {R : Value → Value → Prop} {s t : NumericStrategy}
  {x y x' y' : Except Error Operand}

/-- No quotients, and no powers below zero. -/
def IsPolynomial : Expression α → Prop
  | leaf _ => True
  | add a b | sub a b | mul a b => a.IsPolynomial ∧ b.IsPolynomial
  | div _ _ => False
  | pow a n => a.IsPolynomial ∧ 0 ≤ n

/-- Evaluating both sides and combining them corresponds as combining quantities does. -/
theorem corresponds_operate {op : Operator} (hop : op ≠ .pow)
    (hx : Corresponds (Operand.Matches R) x x') (hy : Corresponds (Operand.Matches R) y y')
    (h : ∀ {q q' r r' : Quantity}, q.Matches R q' → r.Matches R r' →
      Corresponds (Quantity.Matches R) (op.onQuantities s q r) (op.onQuantities t q' r')) :
    Corresponds (Operand.Matches R) (do op.apply s (← x) (← y)) (do op.apply t (← x') (← y')) := by
  apply hx.bind
  rintro - - ⟨hq⟩
  apply hy.bind
  rintro - - ⟨hr⟩
  rw [Operator.apply_quantity_left hop, Operator.apply_quantity_left hop]
  exact (h hq hr).bind fun _ _ hmatch => .ok (.quantity hmatch)

/-- Evaluation under strategies that simulate each other corresponds, if the leaves match and
there are no quotients or they correspond. -/
theorem corresponds_evaluate (hs : Simulates R s t) {read read' : α → Quantity}
    (hread : ∀ a, (read a).Matches R (read' a)) {e : Expression α}
    (he : e.IsPolynomial ∨ SimulatesQuotients R s t) :
    Corresponds (Operand.Matches R) (e.evaluate s fun a => .quantity (read a))
      (e.evaluate t fun a => .quantity (read' a)) := by
  -- a part of a polynomial is one, so the condition passes down with either of its sides
  induction e with
  | leaf a => exact .ok (.quantity (hread a))
  | add a b iha ihb =>
    exact corresponds_operate (by decide) (iha (he.imp_left And.left)) (ihb (he.imp_left And.right))
      (Quantity.corresponds_add hs)
  | sub a b iha ihb =>
    exact corresponds_operate (by decide) (iha (he.imp_left And.left)) (ihb (he.imp_left And.right))
      (Quantity.corresponds_sub hs)
  | mul a b iha ihb =>
    exact corresponds_operate (by decide) (iha (he.imp_left And.left)) (ihb (he.imp_left And.right))
      (Quantity.corresponds_mul hs)
  | div a b iha ihb =>
    have hquotients := he.resolve_left id
    exact corresponds_operate (by decide) (iha (.inr hquotients)) (ihb (.inr hquotients))
      fun hq hr => Quantity.corresponds_div hq hr hquotients
  | pow a n ih =>
    apply (ih (he.imp_left And.left)).bind
    rintro - - ⟨hq⟩
    have hpow := Quantity.corresponds_pow hs hq (he.imp_left And.right)
    exact hpow.bind fun _ _ hmatch => .ok (.quantity hmatch)

end Expression

end QuantityCalculus
