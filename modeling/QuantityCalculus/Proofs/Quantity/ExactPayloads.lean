import Mathlib.Algebra.Field.Rat
import QuantityCalculus.Proofs.Quantity.Simulation

/-!
# The real strategy on exact payloads

On ratios the real strategy and the fraction strategy are one: they give the same ratios and
the same errors. As long as nothing is divided, the real strategy keeps truth values, integers
and ratios exact, integers as integers where it can, and its results equal those of the
fraction strategy.
-/
namespace QuantityCalculus

/-- A payload that is held exactly. -/
inductive ExactPayload where
  | truth (b : Bool)
  | number (a : ExactNumber)

namespace ExactPayload

def widen : ExactPayload → ExactNumber
  | truth b => .integer (Number.ofTruth b)
  | number a => a

def toNumber : ExactPayload → Number
  | truth b => .truth b
  | number (.integer n) => .integer n
  | number (.ratio q) => .ratio q

def toValue (a : ExactPayload) : Value := .number a.toNumber

theorem toValue_number (a : ExactNumber) : (number a).toValue = a.toValue := by
  cases a <;> rfl

@[simp] theorem toRatio_toValue (a : ExactPayload) : a.toValue.toRatio = .ok a.widen.toRat := by
  rcases a with b | n | q <;> rfl

@[simp] theorem extent_toNumber (a : ExactPayload) :
    a.toNumber.extent = .finite a.widen.toRat 0 := by
  rcases a with b | n | q <;> rfl

@[simp] theorem isSignalling_toNumber (a : ExactPayload) : a.toNumber.isSignalling = false := by
  rcases a with b | n | q <;> rfl

theorem equals_toValue (a b : ExactPayload) :
    a.toValue.equals b.toValue = .ok (decide (a.widen.toRat = b.widen.toRat)) := by
  have hequals : a.toNumber.equals b.toNumber = decide (a.widen.toRat = b.widen.toRat) := by
    rw [Number.equals, extent_toNumber, extent_toNumber, Extent.equals_unshifted]
  rw [toValue, toValue, Value.equals,
    Number.compareEqual_eq a.isSignalling_toNumber b.isSignalling_toNumber, hequals]

end ExactPayload

def SameRatio (v w : Value) : Prop := ∃ x, v = .ratio x ∧ w = .ratio x

/-- Both are exact payloads, of the same value. -/
def SameNumber (v w : Value) : Prop :=
  ∃ a b : ExactPayload, a.widen.toRat = b.widen.toRat ∧ v = a.toValue ∧ w = b.toValue

theorem SameNumber.equals {v w : Value} (h : SameNumber v w) : v.equals w = .ok true := by
  obtain ⟨a, b, hab, rfl, rfl⟩ := h
  rw [a.equals_toValue b, decide_eq_true hab]

theorem sameNumber_of_exact {a b : ExactNumber} (h : a.toRat = b.toRat) :
    SameNumber a.toValue b.toValue :=
  ⟨.number a, .number b, h, (ExactPayload.toValue_number a).symm,
    (ExactPayload.toValue_number b).symm⟩

theorem NumericStrategy.real_pow (v : Value) (k : Nat) :
    NumericStrategy.real.pow v (.integer k) = v.pow k := by
  simp only [real, Value.toPower_natCast]
  rfl

theorem NumericStrategy.fraction_pow (v : Value) (k : Nat) :
    NumericStrategy.fraction.pow v (.integer k) = (do .ok (.ratio ((← v.toRatio) ^ k))) := by
  simp only [fraction, Value.toPower_natCast, ratPower_eq]
  rfl

theorem simulates_ratios : Simulates SameRatio .real .fraction where
  add := by
    rintro - - - - ⟨x, rfl, rfl⟩ ⟨y, rfl, rfl⟩
    exact .ok ⟨x + y, rfl, rfl⟩
  sub := by
    rintro - - - - ⟨x, rfl, rfl⟩ ⟨y, rfl, rfl⟩
    exact .ok ⟨x - y, rfl, rfl⟩
  mul := by
    rintro - - - - ⟨x, rfl, rfl⟩ ⟨y, rfl, rfl⟩
    exact .ok ⟨x * y, rfl, rfl⟩
  pow := by
    rintro - - k ⟨x, rfl, rfl⟩
    have hreal : (Value.ratio x).pow k = .ok (.ratio (x ^ k)) := by
      rw [Value.pow, Number.pow_ratio]
      rfl
    rw [NumericStrategy.real_pow, NumericStrategy.fraction_pow, hreal]
    exact .ok ⟨x ^ k, rfl, rfl⟩
  one := by
    rintro - - ⟨x, rfl, rfl⟩
    exact .ok ⟨1, rfl, rfl⟩

theorem Value.div_ratio (x y : Rat) :
    Value.div (.ratio x) (.ratio y) = NumericStrategy.exactQuotient x y := by
  rw [div, Number.div_ratio, NumericStrategy.exactQuotient]
  split <;> rfl

theorem corresponds_exactQuotient (x y : Rat) :
    Corresponds SameRatio (NumericStrategy.exactQuotient x y)
      (NumericStrategy.exactQuotient x y) := by
  unfold NumericStrategy.exactQuotient
  split
  · exact .error _
  · exact .ok ⟨x / y, rfl, rfl⟩

theorem simulatesQuotients_ratios : SimulatesQuotients SameRatio .real .fraction where
  div := by
    rintro - - - - ⟨x, rfl, rfl⟩ ⟨y, rfl, rfl⟩
    change Corresponds _ (Value.div (.ratio x) (.ratio y)) (NumericStrategy.exactQuotient x y)
    rw [Value.div_ratio]
    exact corresponds_exactQuotient x y
  reciprocal := by
    rintro - - ⟨x, rfl, rfl⟩
    -- the integer one is widened to a ratio first
    change Corresponds _ (Value.div (.ratio ((1 : Int) : Rat)) (.ratio x))
      (NumericStrategy.exactQuotient 1 x)
    rw [Value.div_ratio, Int.cast_one]
    exact corresponds_exactQuotient 1 x

/-- Integers combine to an integer, and all else to a ratio. -/
def ExactNumber.combine (i : Int → Int → Int) (f : Rat → Rat → Rat) :
    ExactNumber → ExactNumber → ExactNumber
  | integer m, integer n => integer (i m n)
  | a, b => ratio (f a.toRat b.toRat)

theorem ExactNumber.toRat_combine {i : Int → Int → Int} {f : Rat → Rat → Rat}
    (h : ∀ m n : Int, (i m n : Rat) = f m n) (a b : ExactNumber) :
    (combine i f a b).toRat = f a.toRat b.toRat := by
  cases a with
  | integer m =>
    cases b with
    | integer n => exact h m n
    | ratio q => rfl
  | ratio p => rfl

/-- On exact payloads the operation computes, with an exact result, what `f` does on
ratios. -/
def ComputesExactly (op : Value → Value → Except Error Value) (f : Rat → Rat → Rat) : Prop :=
  ∀ a b : ExactPayload, ∃ c : ExactNumber,
    op a.toValue b.toValue = .ok c.toValue ∧ c.toRat = f a.widen.toRat b.widen.toRat

/-- Operations that compute the same exactly correspond. -/
theorem ComputesExactly.corresponds {op op' : Value → Value → Except Error Value}
    {f : Rat → Rat → Rat} (hop : ComputesExactly op f) (hop' : ComputesExactly op' f)
    {v v' w w' : Value} (hv : SameNumber v v') (hw : SameNumber w w') :
    Corresponds SameNumber (op v w) (op' v' w') := by
  obtain ⟨a, a', ha, rfl, rfl⟩ := hv
  obtain ⟨b, b', hb, rfl, rfl⟩ := hw
  obtain ⟨c, hc, hvalue⟩ := hop a b
  obtain ⟨c', hc', hvalue'⟩ := hop' a' b'
  rw [hc, hc']
  exact .ok (sameNumber_of_exact (by rw [hvalue, hvalue', ha, hb]))

theorem computesExactly_of_combine {op : Value → Value → Except Error Value}
    {i : Int → Int → Int} {f : Rat → Rat → Rat} (hcast : ∀ m n : Int, (i m n : Rat) = f m n)
    (hop : ∀ a b : ExactPayload,
      op a.toValue b.toValue = .ok (ExactNumber.combine i f a.widen b.widen).toValue) :
    ComputesExactly op f := by
  intro a b
  exact ⟨_, hop a b, ExactNumber.toRat_combine hcast a.widen b.widen⟩

theorem NumericStrategy.real_add_exact : ComputesExactly real.add (· + ·) := by
  apply computesExactly_of_combine Int.cast_add
  rintro (_ | _ | _) (_ | _ | _) <;> rfl

theorem NumericStrategy.real_sub_exact : ComputesExactly real.sub (· - ·) := by
  apply computesExactly_of_combine Int.cast_sub
  rintro (_ | _ | _) (_ | _ | _) <;> rfl

theorem NumericStrategy.real_mul_exact : ComputesExactly real.mul (· * ·) := by
  apply computesExactly_of_combine Int.cast_mul
  rintro (_ | _ | _) (_ | _ | _) <;> rfl

theorem computesExactly_toRatio (f : Rat → Rat → Rat) :
    ComputesExactly (fun v w => do .ok (.ratio (f (← v.toRatio) (← w.toRatio)))) f := by
  intro a b
  refine ⟨.ratio (f a.widen.toRat b.widen.toRat), ?_, rfl⟩
  dsimp only
  rw [a.toRatio_toValue, b.toRatio_toValue]
  rfl

theorem ExactNumber.pow_exact (a : ExactNumber) (k : Nat) :
    ∃ c : ExactNumber, a.toValue.pow k = .ok c.toValue ∧ c.toRat = a.toRat ^ k := by
  cases a with
  | integer n =>
    refine ⟨.integer (n ^ k), ?_, Rat.intCast_pow n k⟩
    change Value.ofNumber ((Number.integer n).pow k) = _
    rw [Number.pow_integer]
    rfl
  | ratio q =>
    refine ⟨.ratio (q ^ k), ?_, rfl⟩
    change Value.ofNumber ((Number.ratio q).pow k) = _
    rw [Number.pow_ratio]
    rfl

theorem ExactPayload.pow_widen (a : ExactPayload) (k : Nat) :
    a.toValue.pow k = a.widen.toValue.pow k := by
  rcases a with b | n | q <;> rfl

theorem ExactPayload.one_exact (a : ExactPayload) :
    ∃ c : ExactNumber, NumericStrategy.real.one a.toValue = .ok c.toValue ∧ c.toRat = 1 := by
  rcases a with b | n | q
  · exact ⟨.integer 1, rfl, rfl⟩
  · exact ⟨.integer 1, rfl, rfl⟩
  · exact ⟨.ratio 1, rfl, rfl⟩

/-- On exact payloads both strategies compute numbers of the same value, quotients apart. -/
theorem simulates_exact : Simulates SameNumber .real .fraction where
  add := NumericStrategy.real_add_exact.corresponds (computesExactly_toRatio (· + ·))
  sub := NumericStrategy.real_sub_exact.corresponds (computesExactly_toRatio (· - ·))
  mul := NumericStrategy.real_mul_exact.corresponds (computesExactly_toRatio (· * ·))
  pow := by
    rintro - - k ⟨a, b, hab, rfl, rfl⟩
    obtain ⟨c, hc, hvalue⟩ := a.widen.pow_exact k
    rw [NumericStrategy.real_pow, NumericStrategy.fraction_pow, a.pow_widen, hc,
      b.toRatio_toValue]
    exact .ok (sameNumber_of_exact (b := .ratio (b.widen.toRat ^ k)) (by rw [hvalue, hab]; rfl))
  one := by
    rintro - - ⟨a, b, -, rfl, rfl⟩
    obtain ⟨c, hc, hvalue⟩ := a.one_exact
    rw [hc]
    exact .ok (sameNumber_of_exact (b := .ratio 1) hvalue)

namespace Expression

def ratioLeaf (a : Rat × Dimensions) : Operand := .quantity ⟨.ratio a.1, a.2⟩

def exactLeaf (a : ExactPayload × Dimensions) : Operand := .quantity ⟨a.1.toValue, a.2⟩

/-- Expressions over ratios evaluate alike under the real and the fraction strategy, errors
included, and so do polynomial ones over truth values, integers and ratios, up to the kind of
number. -/
theorem real_agrees_with_fraction :
    (∀ e : Expression (Rat × Dimensions),
      (∃ error, e.evaluate .real ratioLeaf = .error error ∧
        e.evaluate .fraction ratioLeaf = .error error) ∨
      ∃ x d, e.evaluate .real ratioLeaf = .ok (.quantity ⟨.ratio x, d⟩) ∧
        e.evaluate .fraction ratioLeaf = .ok (.quantity ⟨.ratio x, d⟩)) ∧
    ∀ e : Expression (ExactPayload × Dimensions), e.IsPolynomial →
      (∃ error, e.evaluate .real exactLeaf = .error error ∧
        e.evaluate .fraction exactLeaf = .error error) ∨
      ∃ v w d, e.evaluate .real exactLeaf = .ok (.quantity ⟨v, d⟩) ∧
        e.evaluate .fraction exactLeaf = .ok (.quantity ⟨w, d⟩) ∧
        SameNumber v w ∧ v.equals w = .ok true := by
  constructor
  · intro e
    have hread (a : Rat × Dimensions) :
        Quantity.Matches SameRatio ⟨.ratio a.1, a.2⟩ ⟨.ratio a.1, a.2⟩ := ⟨⟨a.1, rfl, rfl⟩, rfl⟩
    have h := corresponds_evaluate (e := e) simulates_ratios hread (.inr simulatesQuotients_ratios)
    apply h.error_or_quantities.imp_right
    rintro ⟨-, -, d, hreal, hfraction, x, rfl, rfl⟩
    exact ⟨x, d, hreal, hfraction⟩
  · intro e he
    have hread (a : ExactPayload × Dimensions) :
        Quantity.Matches SameNumber ⟨a.1.toValue, a.2⟩ ⟨a.1.toValue, a.2⟩ :=
      ⟨⟨a.1, a.1, rfl, rfl, rfl⟩, rfl⟩
    have h := corresponds_evaluate simulates_exact hread (.inl he)
    apply h.error_or_quantities.imp_right
    rintro ⟨v, w, d, hreal, hfraction, hsame⟩
    exact ⟨v, w, d, hreal, hfraction, hsame, hsame.equals⟩

theorem square_of_mixed_sum_agrees :
    let metre : Dimensions := .single .physical (.ofList [("m", 1)])
    let e : Expression (ExactPayload × Dimensions) :=
      .pow (.add (.add (.leaf (.number (.integer 2), metre))
        (.leaf (.number (.ratio (1 / 2)), metre))) (.leaf (.truth true, metre))) 2
    e.IsPolynomial ∧ ∃ v w d, e.evaluate .real exactLeaf = .ok (.quantity ⟨v, d⟩) ∧
      e.evaluate .fraction exactLeaf = .ok (.quantity ⟨w, d⟩) ∧ v.equals w = .ok true := by
  intro metre e
  have he : e.IsPolynomial := ⟨⟨⟨trivial, trivial⟩, trivial⟩, by decide⟩
  have hsucceeds : (e.evaluate .real exactLeaf).isOk = true := rfl
  obtain ⟨error, herror, -⟩ | ⟨v, w, d, hreal, hfraction, -, hequal⟩ :=
    real_agrees_with_fraction.2 e he
  · rw [herror] at hsucceeds
    cases hsucceeds
  · exact ⟨he, v, w, d, hreal, hfraction, hequal⟩

end Expression

end QuantityCalculus
