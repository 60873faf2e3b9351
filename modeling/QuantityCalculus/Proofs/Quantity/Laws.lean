import QuantityCalculus.Proofs.Dimension.Laws
import QuantityCalculus.Proofs.Outcome
import QuantityCalculus.Proofs.Quantity.Fraction

/-!
# The laws of exact arithmetic

Under the fraction strategy the payload of a result is the ratio that the payloads of the
operands give, and its dimensions are those that theirs give. So laws that ratios and
dimensions share are laws of quantities wherever both sides are defined: powers follow the laws
of exponents, and products and quotients distribute over sums and differences. Both sides of
the latter are defined together, since dimensions that differ still differ when they are
multiplied or divided by the same dimensions.
-/
namespace QuantityCalculus

namespace Quantity

variable {a b c q r : Quantity} {x y z : Rat} {d d' : Dimensions}

/-- The payload is read as a ratio. -/
def Reads (q : Quantity) (x : Rat) : Prop := q.value.toRatio = .ok x

def exact (x : Rat) (d : Dimensions) : Quantity := ⟨.ratio x, d⟩

theorem reads_exact (x : Rat) (d : Dimensions) : (exact x d).Reads x := rfl

@[simp] theorem dimensions_exact (x : Rat) (d : Dimensions) : (exact x d).dimensions = d := rfl

/-- Both succeed, with equal quantities. -/
def EqualResults (p p' : Except Error Quantity) : Prop :=
  Yields p fun q => Yields p' fun r => q.equals r = .ok true

theorem equals_exact (h : d.agrees d' = true) :
    (exact x d).equals (exact y d') = .ok (decide (x = y)) := by
  rw [equals, dimensions_exact, dimensions_exact, if_pos h, exact, exact, Value.equals,
    Number.compareEqual_ratio]

theorem equalResults_exact (hxy : x = y) (h : d.agrees d' = true) :
    EqualResults (.ok (exact x d)) (.ok (exact y d')) := by
  refine .ok (.ok ?_)
  rw [equals_exact h, decide_eq_true hxy]

theorem mul_of_reads (hq : q.Reads x) (hr : r.Reads y) :
    q.mul .fraction r = .ok (exact (x * y) (q.dimensions * r.dimensions)) := by
  rw [mul_fraction, hq, hr]
  rfl

theorem div_of_reads (hq : q.Reads x) (hr : r.Reads y) (hy : y ≠ 0) :
    q.div .fraction r = .ok (exact (x / y) (q.dimensions / r.dimensions)) := by
  rw [div_fraction, hq, hr]
  exact if_neg hy

/-- A power is defined unless it is a negative one of zero. -/
theorem pow_of_reads (hq : q.Reads x) {n : Int} (h : x ≠ 0 ∨ 0 ≤ n) :
    q.pow .fraction n = .ok (exact (x ^ n) (q.dimensions ^ n)) := by
  by_cases hn : n = 0
  · subst hn
    rw [zpow_zero]
    rfl
  · rw [pow_fraction q hn, hq]
    refine if_neg ?_
    rintro ⟨hneg, hx⟩
    exact h.elim (fun hne => hne hx) (by omega)

theorem pow_of_reads_zero (hq : q.Reads 0) {n : Int} (hn : n < 0) :
    q.pow .fraction n = .error .divisionByZero := by
  rw [pow_fraction q hn.ne, hq]
  exact if_pos ⟨hn, rfl⟩

/-- A sum or difference, computed on ratios. -/
def combineExact (op : AdditiveOp) (f : Rat → Rat → Rat) (q r : Quantity) :
    Except Error Quantity :=
  combine op (fun v w => do .ok (.ratio (f (← v.toRatio) (← w.toRatio)))) q r

section Combination

variable (op : AdditiveOp) (f : Rat → Rat → Rat)

theorem combineExact_of_reads (h : q.dimensions.agrees r.dimensions = true) (hq : q.Reads x)
    (hr : r.Reads y) : combineExact op f q r = .ok (exact (f x y) q.dimensions) := by
  rw [combineExact, combine_exact, if_pos h, hq, hr]
  rfl

theorem combineExact_of_unlike (h : ¬q.dimensions.agrees r.dimensions = true) :
    combineExact op f q r = .error (incompatible op q.dimensions r.dimensions) :=
  if_neg h

end Combination

section Powers

variable (hq : q.Reads x) (hx : x ≠ 0) (n m : Int)

include hq hx

theorem power_of_power :
    EqualResults (do (← q.pow .fraction n).pow .fraction m) (q.pow .fraction (n * m)) := by
  have hne : x ^ n ≠ 0 := zpow_ne_zero n hx
  rw [pow_of_reads hq (.inl hx), ok_bind, pow_of_reads (reads_exact _ _) (.inl hne),
    pow_of_reads hq (.inl hx)]
  exact equalResults_exact (zpow_mul x n m).symm (q.dimensions.pow_pow_agrees n m)

theorem product_of_powers :
    EqualResults (do (← q.pow .fraction n).mul .fraction (← q.pow .fraction m))
      (q.pow .fraction (n + m)) := by
  rw [pow_of_reads hq (.inl hx), pow_of_reads hq (.inl hx), ok_bind, ok_bind,
    mul_of_reads (reads_exact _ _) (reads_exact _ _), pow_of_reads hq (.inl hx)]
  exact equalResults_exact (zpow_add₀ hx n m).symm (q.dimensions.pow_mul_pow_agrees n m)

theorem power_of_product (hr : r.Reads y) (hy : y ≠ 0) :
    EqualResults (do (← q.mul .fraction r).pow .fraction n)
      (do (← q.pow .fraction n).mul .fraction (← r.pow .fraction n)) := by
  have hne : x * y ≠ 0 := mul_ne_zero hx hy
  rw [mul_of_reads hq hr, ok_bind, pow_of_reads (reads_exact _ _) (.inl hne),
    pow_of_reads hq (.inl hx), ok_bind, pow_of_reads hr (.inl hy), ok_bind,
    mul_of_reads (reads_exact _ _) (reads_exact _ _)]
  exact equalResults_exact (mul_zpow x y n) (q.dimensions.mul_pow_agrees r.dimensions n)

theorem negative_power :
    EqualResults (q.pow .fraction (-n))
      (do (dimensionless (.integer 1)).div .fraction (← q.pow .fraction n)) := by
  have hone : (dimensionless (.integer 1)).Reads 1 := rfl
  rw [pow_of_reads hq (.inl hx), pow_of_reads hq (.inl hx), ok_bind,
    div_of_reads hone (reads_exact _ _) (zpow_ne_zero n hx)]
  refine equalResults_exact ?_ (q.dimensions.neg_pow_agrees n)
  rw [zpow_neg, one_div]

end Powers

/-- Integers are accepted as exponents, and powers of nonzero ratios obey the laws of exponents,
in payload and dimensions. Of zero exactly the negative powers are undefined, and the zeroth
power of anything is the plain number one. -/
theorem powers_obey_laws (hq : q.Reads x) (hr : r.Reads y) (n m : Int) :
    q.powBy .fraction (.integer n) = q.pow .fraction n ∧
      (x ≠ 0 →
        EqualResults (do (← q.pow .fraction n).pow .fraction m) (q.pow .fraction (n * m)) ∧
        EqualResults (do (← q.pow .fraction n).mul .fraction (← q.pow .fraction m))
          (q.pow .fraction (n + m)) ∧
        EqualResults (q.pow .fraction (-n))
          (do (dimensionless (.integer 1)).div .fraction (← q.pow .fraction n)) ∧
        (y ≠ 0 → EqualResults (do (← q.mul .fraction r).pow .fraction n)
          (do (← q.pow .fraction n).mul .fraction (← r.pow .fraction n)))) ∧
      (x = 0 → (q.pow .fraction n = .error .divisionByZero ↔ n < 0) ∧
        ((∃ p, q.pow .fraction n = .ok p) ↔ 0 ≤ n)) ∧
      q.pow .fraction 0 = .ok (dimensionless (.ratio 1)) := by
  refine ⟨rfl, fun hx => ?_, ?_, q.pow_fraction_zero⟩
  · exact ⟨power_of_power hq hx n m, product_of_powers hq hx n m, negative_power hq hx n,
      power_of_product hq hx n hr⟩
  · rintro rfl
    by_cases hn : n < 0
    · simp [pow_of_reads_zero hq hn, hn]
    · have hn' : 0 ≤ n := by omega
      simp [pow_of_reads hq (.inr hn'), hn']

theorem inverse_squares_of_speed :
    let units : Dimensions := .single .physical (.ofList [("m", 1), ("s", -1)])
    let speed := exact (2 / 3) units
    let time : Quantity := ⟨.integer 3, .single .physical (.ofList [("s", 1)])⟩
    speed.Reads (2 / 3) ∧ (2 / 3 : Rat) ≠ 0 ∧ time.Reads 3 ∧ (3 : Rat) ≠ 0 ∧
      EqualResults (do (← speed.pow .fraction (-2)).pow .fraction 2)
        (speed.pow .fraction (-4)) ∧
      EqualResults (do (← speed.mul .fraction time).pow .fraction (-2))
        (do (← speed.pow .fraction (-2)).mul .fraction (← time.pow .fraction (-2))) ∧
      (exact 0 units).pow .fraction (-2) = .error .divisionByZero := by
  intro units speed time
  have htime : time.Reads 3 := rfl
  have hspeed : (2 / 3 : Rat) ≠ 0 := by simp
  obtain ⟨-, hlaws, -⟩ := powers_obey_laws (reads_exact (2 / 3) units) htime (-2) 2
  obtain ⟨hpower, -, -, hproduct⟩ := hlaws hspeed
  obtain ⟨-, -, hzero, -⟩ := powers_obey_laws (reads_exact 0 units) htime (-2) 2
  exact ⟨rfl, hspeed, htime, by decide, hpower, hproduct (by decide),
    (hzero rfl).1.mpr (by decide)⟩

/-- Both succeed exactly under the condition, and then with equal quantities. -/
structure EqualWhen (condition : Prop) (p p' : Except Error Quantity) : Prop where
  together : (∃ q, p = .ok q) ↔ ∃ r, p' = .ok r
  defined : (∃ q, p = .ok q) ↔ condition
  equal : ∀ q r, p = .ok q → p' = .ok r → q.equals r = .ok true

theorem equalWhen_of_cases {condition : Prop} {p p' : Except Error Quantity}
    (h : condition → EqualResults p p')
    (h' : ¬condition → (∃ e, p = .error e) ∧ ∃ e, p' = .error e) :
    EqualWhen condition p p' := by
  by_cases hc : condition
  · obtain ⟨q, rfl, r, rfl, hqr⟩ := h hc
    refine ⟨by simp, by simp [hc], ?_⟩
    intro q' r' hq' hr'
    cases hq'
    cases hr'
    exact hqr
  · obtain ⟨⟨e, rfl⟩, e', rfl⟩ := h' hc
    exact ⟨by simp, by simp [hc], by simp⟩

/-- An operation on one quantity passes through sums and differences if it does so on ratios
and makes no dimensions agree that did not. -/
theorem equalWhen_combineExact (op : AdditiveOp) {f : Rat → Rat → Rat}
    {g : Quantity → Except Error Quantity} {h : Rat → Rat} {k : Dimensions → Dimensions}
    (hg : ∀ q t, q.Reads t → g q = .ok (exact (h t) (k q.dimensions)))
    (hk : ∀ d d' : Dimensions, (k d).agrees (k d') = d.agrees d')
    (hf : ∀ s t, h (f s t) = f (h s) (h t)) (hb : b.Reads y) (hc : c.Reads z) :
    EqualWhen (∀ ns s, b.dimensions.exponent ns s = c.dimensions.exponent ns s)
      (do g (← combineExact op f b c)) (do combineExact op f (← g b) (← g c)) := by
  have hagrees := hk b.dimensions c.dimensions
  rw [← Dimensions.agrees_iff_exponent, hg b y hb, hg c z hc, ok_bind, ok_bind]
  apply equalWhen_of_cases
  · intro h
    rw [combineExact_of_reads op f h hb hc, ok_bind, hg _ _ (reads_exact _ _),
      combineExact_of_reads op f (hagrees.trans h) (reads_exact _ _) (reads_exact _ _)]
    exact equalResults_exact (hf y z) ((Dimensions.agrees_iff_exponent _ _).mpr fun _ _ => rfl)
  · intro h
    rw [combineExact_of_unlike op f h, combineExact_of_unlike op f (hagrees.symm ▸ h)]
    exact ⟨⟨_, rfl⟩, ⟨_, rfl⟩⟩

theorem mul_combineExact (op : AdditiveOp) {f : Rat → Rat → Rat}
    (hf : ∀ s t, x * f s t = f (x * s) (x * t)) (ha : a.Reads x) (hb : b.Reads y)
    (hc : c.Reads z) :
    EqualWhen (∀ ns s, b.dimensions.exponent ns s = c.dimensions.exponent ns s)
      (do a.mul .fraction (← combineExact op f b c))
      (do combineExact op f (← a.mul .fraction b) (← a.mul .fraction c)) :=
  equalWhen_combineExact op (fun _ _ hq => mul_of_reads ha hq) a.dimensions.mul_agrees_mul_left
    hf hb hc

theorem combineExact_div (op : AdditiveOp) {f : Rat → Rat → Rat}
    (hf : ∀ s t, f s t / x = f (s / x) (t / x)) (ha : a.Reads x) (hx : x ≠ 0) (hb : b.Reads y)
    (hc : c.Reads z) :
    EqualWhen (∀ ns s, b.dimensions.exponent ns s = c.dimensions.exponent ns s)
      (do (← combineExact op f b c).div .fraction a)
      (do combineExact op f (← b.div .fraction a) (← c.div .fraction a)) :=
  equalWhen_combineExact op (fun _ _ hq => div_of_reads hq ha hx)
    a.dimensions.div_agrees_div_right hf hb hc

/-- Products distribute over sums and differences, and so do quotients by nonzero ratios. Both
sides are defined exactly if the dimensions of the sum or difference agree. -/
theorem products_and_quotients_distribute (ha : a.Reads x) (hb : b.Reads y) (hc : c.Reads z) :
    let alike := ∀ ns s, b.dimensions.exponent ns s = c.dimensions.exponent ns s
    EqualWhen alike (do a.mul .fraction (← b.add .fraction c))
        (do (← a.mul .fraction b).add .fraction (← a.mul .fraction c)) ∧
      EqualWhen alike (do a.mul .fraction (← b.sub .fraction c))
        (do (← a.mul .fraction b).sub .fraction (← a.mul .fraction c)) ∧
      (x ≠ 0 →
        EqualWhen alike (do (← b.add .fraction c).div .fraction a)
          (do (← b.div .fraction a).add .fraction (← c.div .fraction a)) ∧
        EqualWhen alike (do (← b.sub .fraction c).div .fraction a)
          (do (← b.div .fraction a).sub .fraction (← c.div .fraction a))) := by
  intro alike
  refine ⟨mul_combineExact .addition (mul_add x) ha hb hc,
    mul_combineExact .subtraction (mul_sub x) ha hb hc, fun hx => ⟨?_, ?_⟩⟩
  · exact combineExact_div .addition (fun s t => add_div s t x) ha hx hb hc
  · exact combineExact_div .subtraction (fun s t => sub_div s t x) ha hx hb hc

theorem distances_over_time_add :
    let metre : Dimensions := .single .physical (.ofList [("m", 1)])
    let second : Dimensions := .single .physical (.ofList [("s", 1)])
    let time : Quantity := ⟨.integer 4, second⟩
    let ofSum (b c : Quantity) := do (← b.add .fraction c).div .fraction time
    let sumOf (b c : Quantity) := do
      (← b.div .fraction time).add .fraction (← c.div .fraction time)
    time.Reads 4 ∧ (4 : Rat) ≠ 0 ∧
      EqualWhen True (ofSum (exact (1 / 2) metre) (exact (1 / 3) metre))
        (sumOf (exact (1 / 2) metre) (exact (1 / 3) metre)) ∧
      ¬∃ p, sumOf (exact (1 / 2) metre) (exact (1 / 3) second) = .ok p := by
  intro metre second time ofSum sumOf
  have htime : time.Reads 4 := rfl
  have hne : (4 : Rat) ≠ 0 := by decide
  obtain ⟨-, -, hquotients⟩ := products_and_quotients_distribute htime
    (reads_exact (1 / 2) metre) (reads_exact (1 / 3) metre)
  obtain ⟨-, -, hquotients'⟩ := products_and_quotients_distribute htime
    (reads_exact (1 / 2) metre) (reads_exact (1 / 3) second)
  refine ⟨htime, hne, by simpa using (hquotients hne).1, fun h => ?_⟩
  have hunlike := (hquotients' hne).1
  have hmetre : metre.exponent .physical "m" = second.exponent .physical "m" :=
    hunlike.defined.mp (hunlike.together.mpr h) .physical "m"
  exact absurd hmetre (by decide)

end Quantity

end QuantityCalculus
