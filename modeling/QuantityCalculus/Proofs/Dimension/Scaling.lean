import Mathlib.Data.Rat.Lemmas
import Mathlib.RingTheory.Coprime.Lemmas
import QuantityCalculus.Proofs.Dimension.Laws
import QuantityCalculus.Proofs.Dimension.Unchecked
import QuantityCalculus.Quantity.Basic

/-!
# Scaling by a number

A map is scaled by an integer or a whole ratio without fail. A number that is not whole is not
looked at itself: each exponent is multiplied by it, and the products are checked from left to
right. Such a number is therefore accepted if all products come out whole, and it is refused as an
improper argument only if the first product that is not whole is finite and can be shown. Powers
of dimensions accept what scaling accepts, whereas powers of quantities check the number.
-/
namespace QuantityCalculus

/-- The step fails, and with the error of an improper argument. -/
def FailsOnArgument {α : Type} (x : Except Error α) : Prop :=
  ∃ err, x = .error err ∧ err.kind.isA .argument = true

@[simp] theorem failsOnArgument_error_iff {α : Type} {err : Error} :
    FailsOnArgument (.error err : Except Error α) ↔ err.kind.isA .argument = true := by
  simp [FailsOnArgument]

@[simp] theorem not_failsOnArgument_ok {α : Type} {a : α} :
    ¬FailsOnArgument (.ok a : Except Error α) := by
  simp [FailsOnArgument]

theorem failsOnArgument_map_iff {α β : Type} {x : Except Error α} {f : α → β} :
    FailsOnArgument (x.map f) ↔ FailsOnArgument x := by
  simp only [FailsOnArgument, map_eq_error_iff]

theorem Binary.exists_toRat? (negative : Bool) (significand : Nat) (scale : Int) :
    ∃ q, (finite negative significand scale).toRat? = some q := by
  by_cases hscale : 0 ≤ scale
  · exact ⟨_, if_pos hscale⟩
  · exact ⟨_, if_neg hscale⟩

namespace Number

def IsFiniteReal : Number → Prop
  | integer _ | ratio _ => True
  | float x => (Binary.ofFloat x).isFinite = true
  | truth _ | decimal _ | labelled .. => False

/-- The exponent times the number is computed as the whole number `k`. -/
def WholeProduct (n : Number) (e k : Int) : Prop :=
  ∃ p, (integer e).mul n = .ok p ∧ p.toExponent? = some k

/-- The exponent times the number is finite, but not whole, and short enough to be shown. -/
def FractionalProduct (n : Number) (e : Int) : Prop :=
  ∃ p, (integer e).mul n = .ok p ∧ p.IsFiniteReal ∧ p.toExponent? = none ∧ p.Printable

variable {n p : Number} {e k : Int} {q : Rat}

theorem mul_integer_float (e : Int) (x : Float) : (integer e).mul (float x) =
    (orOverflow (floatOfRat? e)).map fun y => float (y * x) := by
  have hpair : pair (integer e) (float x) =
      (orOverflow (floatOfRat? e)).map fun y => .floats y x := by
    change (orOverflow (floatOfRat? e) >>= fun y => .ok (Pair.floats y x)) = _
    exact bind_ok_eq_map
  unfold mul
  rw [hpair]
  cases orOverflow (floatOfRat? e) <;> rfl

/-- A product of doubles may leave the finite numbers, and an exponent may have no double. -/
theorem mul_cases (e : Int) (hn : n.IsFiniteReal) :
    (integer e).mul n = .error .overflow ∨
      (∃ y, (integer e).mul n = .ok (.float y) ∧ (Binary.ofFloat y).isFinite = false) ∨
      ∃ p, (integer e).mul n = .ok p ∧ p.IsFiniteReal := by
  cases n with
  | integer k => exact .inr (.inr ⟨_, rfl, trivial⟩)
  | ratio q => exact .inr (.inr ⟨_, rfl, trivial⟩)
  | float x =>
    rw [mul_integer_float]
    cases floatOfRat? e with
    | none => exact .inl rfl
    | some y =>
      cases hfinite : (Binary.ofFloat (y * x)).isFinite with
      | true => exact .inr (.inr ⟨_, rfl, hfinite⟩)
      | false => exact .inr (.inl ⟨_, rfl, hfinite⟩)
  | truth b => cases hn
  | decimal d => cases hn
  | labelled l form => cases hn

theorem toExponent?_of_not_isFinite {x : Float} (h : (Binary.ofFloat x).isFinite = false) :
    (float x).toExponent? = none := by
  change (Binary.ofFloat x).toInt? = none
  cases hx : Binary.ofFloat x with
  | finite negative significand scale =>
    rw [hx] at h
    cases h
  | infinity negative => rfl
  | notANumber => rfl

theorem toExponent_of_whole (h : p.toExponent? = some k) :
    (Value.number p).toExponent = .ok k := by
  cases p with
  | truth b => cases h
  | _ => simp only [Value.toExponent, h]

theorem toExponent_of_not_whole (hp : p.IsFiniteReal) (h : p.toExponent? = none) :
    (Value.number p).toExponent =
      if p.Printable then .error (.fractionalExponent p.description)
      else .error .numeralTooLong := by
  have hdescribe : (Value.number p).describe =
      if p.Printable then .ok p.description else .error .numeralTooLong := by
    simp [Value.describe, Value.isPrintable, Value.description]
  have hread : (Value.number p).toExponent =
      (Value.number p).describe >>= fun shown => .error (.fractionalExponent shown) := by
    cases p with
    | truth b => cases hp
    | _ => simp only [Value.toExponent, h]
  rw [hread, hdescribe]
  split
  · rfl
  · rfl

theorem toExponent_eq_ok_iff (hp : p.IsFiniteReal) :
    (Value.number p).toExponent = .ok k ↔ p.toExponent? = some k := by
  cases h : p.toExponent? with
  | some l =>
    rw [toExponent_of_whole h]
    simp
  | none =>
    rw [toExponent_of_not_whole hp h]
    split
    · simp
    · simp

theorem failsOnArgument_toExponent_iff (hp : p.IsFiniteReal) :
    FailsOnArgument (Value.number p).toExponent ↔ p.toExponent? = none ∧ p.Printable := by
  cases h : p.toExponent? with
  | some l =>
    rw [toExponent_of_whole h]
    simp
  | none =>
    rw [toExponent_of_not_whole hp h]
    by_cases hshown : p.Printable
    · rw [if_pos hshown]
      exact iff_of_true (failsOnArgument_error_iff.mpr rfl) ⟨rfl, hshown⟩
    · rw [if_neg hshown]
      exact iff_of_false (by simp [Error.kind, ErrorKind.isA, ErrorKind.ancestors])
        fun hprintable => hshown hprintable.2

theorem compareEqual_zero_of_not_whole (hn : n.IsFiniteReal) (h : n.toExponent? = none) :
    n.compareEqual (integer 0) = .ok false := by
  cases n with
  | integer k => cases h
  | ratio q =>
    have hq : q ≠ 0 := by
      rintro rfl
      cases h
    simp [hq]
  | float x =>
    change (Binary.ofFloat x).toInt? = none at h
    cases hx : Binary.ofFloat x with
    | finite negative significand scale =>
      obtain ⟨q, hq⟩ := Binary.exists_toRat? negative significand scale
      have hne : q ≠ 0 := by
        rintro rfl
        rw [hx, Binary.toInt?, hq] at h
        cases h
      simp [compareEqual, isSignalling, widen, equals, extent, hx, hq, hne]
    | infinity negative =>
      rw [IsFiniteReal, hx] at hn
      cases hn
    | notANumber =>
      rw [IsFiniteReal, hx] at hn
      cases hn
  | truth b => cases hn
  | decimal d => cases hn
  | labelled l form => cases hn

theorem wholeProduct_integer : (integer k).WholeProduct e (e * k) := ⟨_, rfl, rfl⟩

theorem toExponent?_ratio_eq_some_iff : (ratio q).toExponent? = some k ↔ q = k := by
  simp only [toExponent?]
  constructor
  · intro h
    split at h
    · rename_i hden
      cases h
      exact ((Rat.den_eq_one_iff _).mp hden).symm
    · cases h
  · rintro rfl
    rfl

theorem wholeProduct_ratio_iff : (ratio q).WholeProduct e k ↔ (e : Rat) * q = k := by
  have hmul : (integer e).mul (ratio q) = .ok (.ratio (e * q)) := rfl
  unfold WholeProduct
  simp only [hmul, Except.ok.injEq, exists_eq_left', toExponent?_ratio_eq_some_iff]

/-- An exponent times a ratio is whole exactly if the denominator of the ratio divides it. -/
theorem exists_wholeProduct_ratio_iff :
    (∃ k, (ratio q).WholeProduct e k) ↔ (q.den : Int) ∣ e := by
  simp only [wholeProduct_ratio_iff]
  constructor
  · rintro ⟨k, hk⟩
    have hproduct : e * q.num = q.den * k := by
      have hrat : (e : Rat) * q.num = q.den * k := by
        rw [← hk, ← Rat.mul_den_eq_num q]
        ring
      exact_mod_cast hrat
    have hcoprime : IsCoprime (q.den : Int) q.num :=
      Int.isCoprime_iff_gcd_eq_one.mpr q.reduced.symm
    exact hcoprime.dvd_of_dvd_mul_right ⟨k, hproduct⟩
  · rintro ⟨c, rfl⟩
    refine ⟨c * q.num, ?_⟩
    push_cast
    rw [← Rat.mul_den_eq_num q]
    ring

end Number

theorem Value.mul_number (a b : Number) :
    (Value.number a).mul (.number b) = (a.mul b).map .number := rfl

namespace DimensionMap

variable {m : DimensionMap} {n p : Number} {s : String} {e k : Int}

theorem scaledExponent_of_mul_error {err : Error} (h : (Number.integer e).mul n = .error err) :
    scaledExponent (.text s) (.integer e) (.number n) = .error err := by
  unfold scaledExponent
  rw [Value.mul_number, h]
  rfl

/-- What tells of a result beyond the finite numbers is no argument error, and neither is what
takes its place if the exponent or the number cannot be shown. -/
theorem scaledExponent_of_unbounded {y : Float} (h : (Number.integer e).mul n = .ok (.float y))
    (hy : (Binary.ofFloat y).isFinite = false) :
    ∃ err, scaledExponent (.text s) (.integer e) (.number n) = .error err ∧
      err.kind.isA .argument = false := by
  unfold scaledExponent
  rw [Value.mul_number, h]
  simp only [Except.map, ok_bind, hy, Bool.false_eq_true, if_false]
  unfold Value.display Value.describe
  split <;> split <;> split <;> exact ⟨_, rfl, rfl⟩

theorem scaledExponent_of_finite (h : (Number.integer e).mul n = .ok p) (hp : p.IsFiniteReal) :
    scaledExponent (.text s) (.integer e) (.number n) = (Value.number p).toExponent := by
  unfold scaledExponent
  rw [Value.mul_number, h]
  cases p with
  | float y =>
    have hy : (Binary.ofFloat y).isFinite = true := hp
    simp only [Except.map, ok_bind, hy, if_true]
  | _ => rfl

theorem scaledExponent_eq_ok_iff (hn : n.IsFiniteReal) :
    scaledExponent (.text s) (.integer e) (.number n) = .ok k ↔ n.WholeProduct e k := by
  unfold Number.WholeProduct
  rcases n.mul_cases e hn with h | ⟨y, h, hy⟩ | ⟨p, h, hp⟩
  · rw [scaledExponent_of_mul_error h]
    simp [h]
  · obtain ⟨err, herr, -⟩ := scaledExponent_of_unbounded (s := s) h hy
    rw [herr]
    simp [h, Number.toExponent?_of_not_isFinite hy]
  · rw [scaledExponent_of_finite h hp, Number.toExponent_eq_ok_iff hp]
    simp [h]

theorem failsOnArgument_scaledExponent_iff (hn : n.IsFiniteReal) :
    FailsOnArgument (scaledExponent (.text s) (.integer e) (.number n)) ↔
      n.FractionalProduct e := by
  unfold Number.FractionalProduct
  rcases n.mul_cases e hn with h | ⟨y, h, hy⟩ | ⟨p, h, hp⟩
  · rw [scaledExponent_of_mul_error h]
    simp [h, Error.kind, ErrorKind.isA, ErrorKind.ancestors]
  · obtain ⟨err, herr, hkind⟩ := scaledExponent_of_unbounded (s := s) h hy
    rw [herr]
    simp [h, hkind, Number.IsFiniteReal, hy]
  · rw [scaledExponent_of_finite h hp, Number.failsOnArgument_toExponent_iff hp]
    simp [h, hp]

/-- From the left, the first product that is not whole is finite and can be shown. -/
def MeetsFraction (m : DimensionMap) (n : Number) : Prop :=
  ∃ passed e rest, m.entries = passed ++ e :: rest ∧
    (∀ f ∈ passed, ∃ k, n.WholeProduct f.2 k) ∧ n.FractionalProduct e.2

theorem exists_scaledEntry_iff (hn : n.IsFiniteReal) {e : String × Int} :
    (∃ p, Unchecked.scaledEntry (.number n) e = .ok p) ↔ ∃ k, n.WholeProduct e.2 k := by
  unfold Unchecked.scaledEntry
  simp [bind_eq_ok_iff, scaledExponent_eq_ok_iff hn]

theorem failsOnArgument_scaledEntry_iff (hn : n.IsFiniteReal) {e : String × Int} :
    FailsOnArgument (Unchecked.scaledEntry (.number n) e) ↔ n.FractionalProduct e.2 := by
  unfold Unchecked.scaledEntry
  rw [bind_ok_eq_map, failsOnArgument_map_iff, failsOnArgument_scaledExponent_iff hn]

theorem exists_mapM_scaledEntry_iff (hn : n.IsFiniteReal) :
    (∃ powers, m.entries.mapM (Unchecked.scaledEntry (.number n)) = .ok powers) ↔
      ∀ e ∈ m.entries, ∃ k, n.WholeProduct e.2 k := by
  rw [exists_mapM_iff]
  simp only [exists_scaledEntry_iff hn]

theorem exists_scale_iff (m : DimensionMap) (hn : n.IsFiniteReal) :
    (∃ out, Unchecked.scale m.toValue (.number n) = .ok out) ↔
      ∀ e ∈ m.entries, ∃ k, n.WholeProduct e.2 k := by
  rw [← exists_mapM_scaledEntry_iff hn, Unchecked.scale_eq]
  simp [map_eq_ok_iff]

theorem exists_scaleBy_iff (m : DimensionMap) (hn : n.IsFiniteReal) :
    (∃ k, m.scaleBy (.number n) = .ok k) ↔ ∀ e ∈ m.entries, ∃ k, n.WholeProduct e.2 k := by
  rw [← exists_mapM_scaledEntry_iff hn, Unchecked.scaleBy_eq]
  simp [map_eq_ok_iff]

theorem failsOnArgument_scale_iff (m : DimensionMap) (hn : n.IsFiniteReal) :
    FailsOnArgument (Unchecked.scale m.toValue (.number n)) ↔ m.MeetsFraction n := by
  rw [Unchecked.scale_eq, failsOnArgument_map_iff]
  simp only [FailsOnArgument, mapM_eq_error_iff, FirstRefusal, exists_scaledEntry_iff hn]
  unfold MeetsFraction
  simp only [← failsOnArgument_scaledEntry_iff hn]
  constructor
  · rintro ⟨err, ⟨passed, e, rest, hentries, hpassed, herr⟩, hkind⟩
    exact ⟨passed, e, rest, hentries, hpassed, err, herr, hkind⟩
  · rintro ⟨passed, e, rest, hentries, hpassed, err, herr, hkind⟩
    exact ⟨err, ⟨passed, e, rest, hentries, hpassed, herr⟩, hkind⟩

theorem filter_multiples (m : DimensionMap) (k : Int) :
    ((m.entries.map fun e => (e.1, e.2 * k)).filter fun p => p.2 ≠ 0) =
      if k = 0 then [] else m.entries.map fun e => (e.1, e.2 * k) := by
  split
  · rename_i hk
    refine List.filter_eq_nil_iff.mpr fun p hp => ?_
    obtain ⟨e, -, rfl⟩ := List.mem_map.mp hp
    simp [hk]
  · rename_i hk
    refine List.filter_eq_self.mpr fun p hp => ?_
    obtain ⟨e, he, rfl⟩ := List.mem_map.mp hp
    exact decide_eq_true (Int.mul_ne_zero (m.nonzero e he) hk)

theorem scale_whole (m : DimensionMap) (k : Int) (h : n = .integer k ∨ n = .ratio k) :
    Unchecked.scale m.toValue (.number n) =
      .ok (if k = 0 then [] else m.entries.map fun e => (.text e.1, e.2 * k)) := by
  have hn : n.IsFiniteReal := by
    rcases h with rfl | rfl
    · trivial
    · trivial
  have hwhole : ∀ e, n.WholeProduct e (e * k) := by
    intro e
    rcases h with rfl | rfl
    · exact Number.wholeProduct_integer
    · exact Number.wholeProduct_ratio_iff.mpr (Int.cast_mul e k).symm
  have hscaled : m.entries.mapM (Unchecked.scaledEntry (.number n)) =
      .ok (m.entries.map fun e => (e.1, e.2 * k)) :=
    mapM_eq_ok_map fun e _ => by
      rw [Unchecked.scaledEntry, (scaledExponent_eq_ok_iff hn).mpr (hwhole e.2)]
      rfl
  rw [Unchecked.scale_eq, hscaled]
  refine congrArg Except.ok ?_
  dsimp only
  rw [filter_multiples]
  split
  · rfl
  · rw [List.map_map]
    rfl

end DimensionMap

namespace Dimensions

variable {n : Number}

theorem powBy_of_not_whole (d : Dimensions) (hn : n.IsFiniteReal) (h : n.toExponent? = none) :
    (∃ d', d.powBy (.number n) = .ok d') ↔
      ∀ ns, ∀ e ∈ (d.get ns).entries, ∃ k, n.WholeProduct e.2 k := by
  have hzero : (Value.number n).equals (.integer 0) = .ok false := by
    rw [Value.equals, Number.compareEqual_zero_of_not_whole hn h]
  unfold powBy
  rw [hzero]
  simp only [← DimensionMap.exists_scaleBy_iff _ hn, Namespace.forall_iff]
  simp [bind_eq_ok_iff, ok_bind, get]

end Dimensions

theorem Quantity.powBy_of_not_whole (s : NumericStrategy) (a : Quantity) {n : Number}
    (hn : n.IsFiniteReal) (h : n.toExponent? = none) :
    ∃ err, a.powBy s (.number n) = .error err ∧ (n.Printable → err.kind.isA .argument = true) := by
  unfold powBy
  rw [Number.toExponent_of_not_whole hn h]
  by_cases hshown : n.Printable
  · rw [if_pos hshown]
    exact ⟨_, rfl, fun _ => rfl⟩
  · rw [if_neg hshown]
    exact ⟨_, rfl, fun hprintable => absurd hprintable hshown⟩

namespace DimensionMap

/-- A whole factor scales every exponent. Any other number meets an argument error exactly if the
first product that is not whole is finite and can be shown; it is accepted if there is no such
product, a ratio thus if its denominator divides all exponents. The power of dimensions accepts
it likewise, though the power of no quantity does. -/
theorem scaling_checks_products (m : DimensionMap) {n : Number} (hn : n.IsFiniteReal) :
    (∀ k : Int, n = .integer k ∨ n = .ratio k →
      Unchecked.scale m.toValue (.number n) =
        .ok (if k = 0 then [] else m.entries.map fun e => (.text e.1, e.2 * k))) ∧
    (FailsOnArgument (Unchecked.scale m.toValue (.number n)) ↔ m.MeetsFraction n) ∧
    ((∃ out, Unchecked.scale m.toValue (.number n) = .ok out) ↔
      ∀ e ∈ m.entries, ∃ k, n.WholeProduct e.2 k) ∧
    (∀ q, n = .ratio q → ((∃ out, Unchecked.scale m.toValue (.number n) = .ok out) ↔
      ∀ e ∈ m.entries, (q.den : Int) ∣ e.2)) ∧
    (n.toExponent? = none → ∀ d : Dimensions,
      ((∃ d', d.powBy (.number n) = .ok d') ↔
        ∀ ns, ∀ e ∈ (d.get ns).entries, ∃ k, n.WholeProduct e.2 k) ∧
      ∀ s v, ∃ err, Quantity.powBy s ⟨v, d⟩ (.number n) = .error err ∧
        (n.Printable → err.kind.isA .argument = true)) := by
  refine ⟨m.scale_whole, m.failsOnArgument_scale_iff hn, m.exists_scale_iff hn, ?_, ?_⟩
  · rintro q rfl
    rw [m.exists_scale_iff hn]
    simp only [Number.exists_wholeProduct_ratio_iff]
  · intro hfraction d
    exact ⟨d.powBy_of_not_whole hn hfraction,
      fun s v => Quantity.powBy_of_not_whole s ⟨v, d⟩ hn hfraction⟩

theorem half_refused_at_odd_exponent :
    (Number.ratio (1 / 2)).IsFiniteReal ∧
      FailsOnArgument (Unchecked.scale (ofList [("m", 2), ("s", -3)]).toValue (.ratio (1 / 2))) := by
  have hn : (Number.ratio (1 / 2)).IsFiniteReal := trivial
  have heven : (Number.ratio (1 / 2)).WholeProduct 2 1 :=
    Number.wholeProduct_ratio_iff.mpr (by norm_num)
  have hodd : (Number.ratio (1 / 2)).FractionalProduct (-3) :=
    ⟨_, rfl, trivial, by decide +kernel, by decide +kernel⟩
  refine ⟨hn, (scaling_checks_products _ hn).2.1.mpr ?_⟩
  exact ⟨[("m", 2)], ("s", -3), [], rfl, List.forall_mem_singleton.mpr ⟨1, heven⟩, hodd⟩

/-- The half of an even exponent is whole, so a half is accepted as a factor and as a power of
dimensions, although no quantity has such a power. -/
theorem half_of_even_exponent_accepted :
    (Number.ratio (1 / 2)).toExponent? = none ∧
    Unchecked.scale (ofList [("m", 2)]).toValue (.ratio (1 / 2)) = .ok [(.text "m", 1)] ∧
    (Dimensions.single .physical (ofList [("m", 2)])).powBy (.ratio (1 / 2)) =
      .ok (.single .physical (ofList [("m", 1)])) ∧
    FailsOnArgument (Quantity.powBy .real
      ⟨.integer 1, .single .physical (ofList [("m", 2)])⟩ (.ratio (1 / 2))) := by
  have hn : (Number.ratio (1 / 2)).IsFiniteReal := trivial
  have hfraction : (Number.ratio (1 / 2)).toExponent? = none := by decide +kernel
  have hshown : (Number.ratio (1 / 2)).Printable := by decide +kernel
  obtain ⟨err, herr, hkind⟩ := Quantity.powBy_of_not_whole .real
    ⟨.integer 1, .single .physical (ofList [("m", 2)])⟩ hn hfraction
  refine ⟨hfraction, ?_, ?_, err, herr, hkind hshown⟩
  · with_unfolding_all rfl
  · with_unfolding_all rfl

end DimensionMap

end QuantityCalculus
