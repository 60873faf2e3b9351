import QuantityCalculus.Proofs.Dimension.Scaling
import QuantityCalculus.Proofs.Number.WholeDoubles
import QuantityCalculus.Proofs.Quantity.Calculation

/-!
# Powers with whole numbers of any kind

An exponent may be an integer, a whole ratio or a whole double. The power of a quantity makes an
integer of it first. The power of dimensions does not: it multiplies the exponents by the number
as it is, which is exact for integers and ratios, but for a double only if every product is a
double itself.
-/
namespace QuantityCalculus

open Binary (HasDouble)

namespace Number

variable {n : Number} {x : Float} {e k : Int}

theorem IsFiniteReal.of_toExponent? (h : n.toExponent? = some k) : n.IsFiniteReal := by
  cases n with
  | integer i => trivial
  | ratio q => trivial
  | float x =>
    refine Bool.eq_true_of_not_eq_false fun hx => ?_
    rw [toExponent?_of_not_isFinite hx] at h
    cases h
  | truth b => cases h
  | decimal d => cases h
  | labelled l form => cases h

theorem wholeProduct_float_iff (h : (float x).toExponent? = some k) (he : e ≠ 0) (hk : k ≠ 0) :
    (float x).WholeProduct e (e * k) ↔ HasDouble (e * k) := by
  unfold WholeProduct
  rw [mul_integer_float]
  constructor
  · rintro ⟨p, hp, hwhole⟩
    obtain ⟨y, -, rfl⟩ := map_eq_ok_iff.mp hp
    exact Binary.hasDouble_of_toInt? hwhole (Int.mul_ne_zero he hk)
  · intro hproduct
    obtain ⟨y, hy, hye⟩ := (hproduct.of_mul he hk).exists_float he
    refine ⟨float (y * x), ?_, (Binary.toInt?_mul_iff hye h he hk).mpr hproduct⟩
    rw [hy]
    rfl

theorem wholeProduct_of_exact (h : n.toExponent? = some k) (hn : ∀ x, n ≠ float x) :
    n.WholeProduct e (e * k) := by
  cases n with
  | integer i =>
    cases h
    exact wholeProduct_integer
  | ratio q =>
    rw [wholeProduct_ratio_iff, toExponent?_ratio_eq_some_iff.mp h, Int.cast_mul]
  | float x => exact absurd rfl (hn x)
  | truth b => cases h
  | decimal d => cases h
  | labelled l form => cases h

theorem extent_of_whole (h : n.toExponent? = some k) : n.extent = .finite k 0 := by
  cases n with
  | integer i =>
    cases h
    rfl
  | ratio q =>
    rw [toExponent?_ratio_eq_some_iff.mp h]
    rfl
  | float x =>
    have hrat := Binary.toInt?_eq_some_iff.mp h
    cases hx : Binary.ofFloat x with
    | finite negative m e =>
      rw [hx] at hrat
      simp [extent, hx, hrat]
    | infinity negative =>
      rw [hx] at hrat
      cases hrat
    | notANumber =>
      rw [hx] at hrat
      cases hrat
  | truth b => cases h
  | decimal d => cases h
  | labelled l form => cases h

theorem isSignalling_of_whole (h : n.toExponent? = some k) : n.isSignalling = false := by
  cases n with
  | decimal d => cases h
  | labelled l form => cases h
  | _ => rfl

theorem compareEqual_integer_of_whole (h : n.toExponent? = some k) (j : Int) :
    n.compareEqual (integer j) = .ok (decide (k = j)) := by
  rw [compareEqual_eq (isSignalling_of_whole h) rfl, equals, extent_of_whole h]
  simp [extent]

end Number

theorem Value.toExponent_eq_ok_iff {v : Value} {k : Int} :
    v.toExponent = .ok k ↔ ∃ n, v = .number n ∧ n.toExponent? = some k := by
  constructor
  · intro h
    unfold toExponent at h
    split at h
    · cases h
    · rename_i n _
      split at h
      · rename_i i hn
        cases h
        exact ⟨n, rfl, hn⟩
      · obtain ⟨shown, -, h⟩ := bind_eq_ok_iff.mp h
        cases h
    · obtain ⟨shown, -, h⟩ := bind_eq_ok_iff.mp h
      cases h
  · rintro ⟨n, rfl, hn⟩
    exact Number.toExponent_of_whole hn

namespace DimensionMap

variable {m m' : DimensionMap} {n : Number} {k : Int}

theorem scaledEntry_of_wholeProduct (hn : n.IsFiniteReal) {e : String × Int}
    (h : n.WholeProduct e.2 k) : Unchecked.scaledEntry (.number n) e = .ok (e.1, k) := by
  unfold Unchecked.scaledEntry
  rw [(scaledExponent_eq_ok_iff hn).mpr h]
  rfl

theorem scaleBy_of_wholeProduct (hn : n.IsFiniteReal) (hk : k ≠ 0)
    (h : ∀ e ∈ m.entries, n.WholeProduct e.2 (e.2 * k)) :
    m.scaleBy (.number n) = .ok (m.scale k) := by
  have hscaled : m.entries.mapM (Unchecked.scaledEntry (.number n)) = .ok (m.scale k).entries := by
    rw [scale, dif_neg hk]
    exact mapM_eq_ok_map fun e he => scaledEntry_of_wholeProduct hn (h e he)
  rw [Unchecked.scaleBy_eq, hscaled]
  exact congrArg Except.ok (m.scale k).ofList_entries

/-- The multiples of the exponents come out only if they are computed as such. -/
theorem wholeProduct_of_scaleBy (hn : n.IsFiniteReal) (h : m.scaleBy (.number n) = .ok m')
    (hagrees : m'.agrees (m.scale k)) : ∀ e ∈ m.entries, n.WholeProduct e.2 (e.2 * k) := by
  intro e he
  rw [Unchecked.scaleBy_eq] at h
  obtain ⟨powers, hpowers, rfl⟩ := map_eq_ok_iff.mp h
  obtain ⟨p, hp, hscaled⟩ := exists_mem_of_mapM hpowers he
  obtain ⟨j, hj, hscaled⟩ := bind_eq_ok_iff.mp hscaled
  cases hscaled
  have hnodup : (powers.map Prod.fst).Nodup := (Unchecked.keys_scaledEntry hpowers).symm ▸ m.nodup
  have hexponent : j = m.exponent e.1 * k := by
    rw [← exponent_scale, ← (agrees_iff_exponent _ _).mp hagrees, exponent_ofList,
      exponentSum_eq_exponentIn e.1 hnodup]
    exact (exponentIn_of_mem hnodup hp).symm
  rw [(m.mem_entries_iff.mp he).1] at hexponent
  rw [← hexponent]
  exact (scaledExponent_eq_ok_iff hn).mp hj

end DimensionMap

namespace Dimensions

variable {d d' : Dimensions} {n : Number} {k : Int}

theorem powBy_of_zero (h : n.toExponent? = some 0) : d.powBy (.number n) = .ok (d ^ (0 : Int)) := by
  have hzero : (Value.number n).equals (.integer 0) = .ok true := by
    rw [Value.equals, Number.compareEqual_integer_of_whole h]
    rfl
  unfold powBy
  rw [hzero]
  rfl

theorem powBy_eq (h : n.toExponent? = some k) (hk : k ≠ 0) :
    d.powBy (.number n) = (do
      .ok ⟨← d.physical.scaleBy (.number n), ← d.algebraic.scaleBy (.number n),
        ← d.symbolic.scaleBy (.number n)⟩) := by
  have hzero : (Value.number n).equals (.integer 0) = .ok false := by
    rw [Value.equals, Number.compareEqual_integer_of_whole h, decide_eq_false hk]
  unfold powBy
  rw [hzero]
  rfl

theorem powBy_of_wholeProduct (h : n.toExponent? = some k)
    (hwhole : ∀ ns, ∀ e ∈ (d.get ns).entries, n.WholeProduct e.2 (e.2 * k)) :
    d.powBy (.number n) = .ok (d ^ k) := by
  by_cases hk : k = 0
  · subst hk
    exact powBy_of_zero h
  · have hscale : ∀ ns, (d.get ns).scaleBy (.number n) = .ok ((d.get ns).scale k) := fun ns =>
      DimensionMap.scaleBy_of_wholeProduct (.of_toExponent? h) hk (hwhole ns)
    obtain ⟨hphysical, halgebraic, hsymbolic⟩ := Namespace.forall_iff.mp hscale
    simp only [get] at hphysical halgebraic hsymbolic
    rw [powBy_eq h hk, hphysical, halgebraic, hsymbolic]
    rfl

theorem wholeProduct_of_powBy (h : n.toExponent? = some k) (hk : k ≠ 0)
    (hpow : d.powBy (.number n) = .ok d') (hagrees : d'.agrees (d ^ k)) :
    ∀ ns, ∀ e ∈ (d.get ns).entries, n.WholeProduct e.2 (e.2 * k) := by
  rw [powBy_eq h hk] at hpow
  obtain ⟨physical, hphysical, hpow⟩ := bind_eq_ok_iff.mp hpow
  obtain ⟨algebraic, halgebraic, hpow⟩ := bind_eq_ok_iff.mp hpow
  obtain ⟨symbolic, hsymbolic, hpow⟩ := bind_eq_ok_iff.mp hpow
  cases hpow
  obtain ⟨hp, ha, hs⟩ := Namespace.forall_iff.mp ((agrees_iff_get _ _).mp hagrees)
  have hn := Number.IsFiniteReal.of_toExponent? h
  exact Namespace.forall_iff.mpr ⟨DimensionMap.wholeProduct_of_scaleBy hn hphysical hp,
    DimensionMap.wholeProduct_of_scaleBy hn halgebraic ha,
    DimensionMap.wholeProduct_of_scaleBy hn hsymbolic hs⟩

theorem powBy_of_exact (h : n.toExponent? = some k) (hn : ∀ x, n ≠ .float x) :
    d.powBy (.number n) = .ok (d ^ k) :=
  powBy_of_wholeProduct h fun _ _ _ => Number.wholeProduct_of_exact h hn

theorem hasDouble_exponent_pow_iff : (∀ ns s, HasDouble ((d ^ k).exponent ns s)) ↔
    ∀ ns, ∀ e ∈ (d.get ns).entries, HasDouble (e.2 * k) := by
  refine forall_congr' fun ns => ?_
  simp only [exponent_pow]
  constructor
  · intro h e he
    have hexponent : d.exponent ns e.1 = e.2 := ((d.get ns).mem_entries_iff.mp he).1
    have hdouble := h e.1
    rwa [hexponent] at hdouble
  · intro h s
    by_cases hzero : d.exponent ns s = 0
    · rw [hzero, Int.zero_mul]
      exact Binary.hasDouble_zero
    · exact h (s, d.exponent ns s) ((d.get ns).mem_entries_iff.mpr ⟨rfl, hzero⟩)

theorem powBy_float {x : Float} (h : (Number.float x).toExponent? = some k)
    (hdoubles : ∀ ns s, HasDouble ((d ^ k).exponent ns s)) :
    d.powBy (.number (.float x)) = .ok (d ^ k) := by
  by_cases hk : k = 0
  · subst hk
    exact powBy_of_zero h
  · exact powBy_of_wholeProduct h fun ns e he =>
      (Number.wholeProduct_float_iff h ((d.get ns).nonzero e he) hk).mpr
        (hasDouble_exponent_pow_iff.mp hdoubles ns e he)

theorem hasDouble_of_powBy_float {x : Float} (h : (Number.float x).toExponent? = some k)
    (hpow : d.powBy (.number (.float x)) = .ok d') (hagrees : d'.agrees (d ^ k)) :
    ∀ ns s, HasDouble ((d ^ k).exponent ns s) := by
  by_cases hk : k = 0
  · subst hk
    simp only [exponent_pow, Int.mul_zero]
    exact fun _ _ => Binary.hasDouble_zero
  · exact hasDouble_exponent_pow_iff.mpr fun ns e he =>
      (Number.wholeProduct_float_iff h ((d.get ns).nonzero e he) hk).mp
        (wholeProduct_of_powBy h hk hpow hagrees ns e he)

end Dimensions

theorem Quantity.powBy_of_exponent {v : Value} {k : Int} (h : v.toExponent = .ok k)
    (s : NumericStrategy) (q : Quantity) : q.powBy s v = q.pow s k := by
  unfold powBy
  rw [h]
  rfl

namespace Dimensions

/-- A whole number of any kind counts as the integer that it stands for, in the power of a quantity
and, unless it is a double, in the power of dimensions. With a double, the latter is the power with
the integer exactly if all exponents of that power are doubles themselves. -/
theorem power_with_whole_number (d : Dimensions) {v : Value} {k : Int} (h : v.toExponent = .ok k) :
    d.powBy (.integer k) = .ok (d ^ k) ∧
    ((∀ x, v ≠ .number (.float x)) → d.powBy v = .ok (d ^ k)) ∧
    (∀ x, v = .number (.float x) →
      ((∀ ns s, HasDouble ((d ^ k).exponent ns s)) → d.powBy v = .ok (d ^ k)) ∧
      ∀ d', d.powBy v = .ok d' → d'.agrees (d ^ k) →
        ∀ ns s, HasDouble ((d ^ k).exponent ns s)) ∧
    ∀ s a, Quantity.powBy s ⟨a, d⟩ v = Quantity.pow s ⟨a, d⟩ k ∧
      ∀ q, Quantity.powBy s ⟨a, d⟩ v = .ok q → q.dimensions = d ^ k := by
  obtain ⟨n, rfl, hn⟩ := Value.toExponent_eq_ok_iff.mp h
  refine ⟨d.powBy_integer k, ?_, ?_, ?_⟩
  · intro hexact
    exact powBy_of_exact hn fun x hx => hexact x (congrArg Value.number hx)
  · intro x hx
    cases hx
    exact ⟨powBy_float hn, fun d' => hasDouble_of_powBy_float hn⟩
  · intro s a
    rw [Quantity.powBy_of_exponent h]
    exact ⟨rfl, fun q hq => Quantity.dimensions_pow hq⟩

theorem cube_of_speed_with_double :
    (Value.number (.float 3.0)).toExponent = .ok 3 ∧
      (single .physical (.ofList [("m", 1), ("s", -1)])).powBy (.number (.float 3.0)) =
        .ok (.single .physical (.ofList [("m", 3), ("s", -3)])) := by
  have hcube : (Number.float 3.0).toExponent? = some 3 := by decide +kernel
  have hexponent := Number.toExponent_of_whole hcube
  refine ⟨hexponent, ?_⟩
  have hpower := (power_with_whole_number (single .physical (.ofList [("m", 1), ("s", -1)]))
    hexponent).2.2.1 3.0 rfl
  refine (hpower.1 (hasDouble_exponent_pow_iff.mpr ?_)).trans ?_
  · exact Namespace.forall_iff.mpr ⟨by decide, by decide, by decide⟩
  · with_unfolding_all rfl

/-- The first integer that is no double changes in the power with the double one. -/
theorem first_power_with_double_changes_exponent :
    (Value.number (.float 1.0)).toExponent = .ok 1 ∧
      (single .physical (.ofList [("m", 2 ^ 53 + 1)])).powBy (.integer 1) =
        .ok (single .physical (.ofList [("m", 2 ^ 53 + 1)])) ∧
      (single .physical (.ofList [("m", 2 ^ 53 + 1)])).powBy (.number (.float 1.0)) =
        .ok (single .physical (.ofList [("m", 2 ^ 53)])) ∧
      (single .physical (.ofList [("m", 2 ^ 53)])).agrees
        (single .physical (.ofList [("m", 2 ^ 53 + 1)])) = false := by
  have hone : (Number.float 1.0).toExponent? = some 1 := by decide +kernel
  refine ⟨Number.toExponent_of_whole hone, ?_, ?_, ?_⟩
  · with_unfolding_all rfl
  · with_unfolding_all rfl
  · with_unfolding_all rfl

end Dimensions

end QuantityCalculus
