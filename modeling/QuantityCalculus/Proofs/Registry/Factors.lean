import QuantityCalculus.Proofs.Dimension.Acceptance
import QuantityCalculus.Proofs.Number.DoubleRange
import QuantityCalculus.Registry.Definition

/-!
# Factors of units

The factor of a unit must be positive and finite. Positive is decided on the exact value, finite on
the nearest double, so an integer or a ratio that is too large to have one is neither accepted nor
refused as improper: looking for its double overflows. All other factors that are no decimals are
accepted or refused as they should be. The dimensions of a unit are always in normal form.
-/
namespace QuantityCalculus

namespace Number

def IsPositiveFinite (a : Number) : Prop := ∃ q, a.extent = .finite q 0 ∧ 0 < q

/-- A number too large to have a nearest double. -/
def IsBeyondDoubles (a : Number) : Prop := ∃ q, a.extent = .finite q 0 ∧ (Binary.limit : Rat) ≤ q

variable {a : Number} {q : Rat}

theorem isPositiveFinite_iff (hq : a.extent = .finite q 0) : a.IsPositiveFinite ↔ 0 < q := by
  refine ⟨fun ⟨p, hp, hpos⟩ => ?_, fun hpos => ⟨q, hq, hpos⟩⟩
  cases hq.symm.trans hp
  exact hpos

theorem isBeyondDoubles_iff (hq : a.extent = .finite q 0) :
    a.IsBeyondDoubles ↔ (Binary.limit : Rat) ≤ q := by
  refine ⟨fun ⟨p, hp, hle⟩ => ?_, fun hle => ⟨q, hq, hle⟩⟩
  cases hq.symm.trans hp
  exact hle

theorem IsBeyondDoubles.isPositiveFinite (h : a.IsBeyondDoubles) : a.IsPositiveFinite := by
  obtain ⟨q, hq, hle⟩ := h
  have hpos : (0 : Rat) < Binary.limit := Nat.cast_pos.mpr Binary.limit_pos
  exact ⟨q, hq, hpos.trans_le hle⟩

theorem isPositive_eq (ha : a.isDecimal = false) :
    a.isPositive = .ok ((Extent.finite 0 0).precedes a.extent) := by
  unfold isPositive precedes
  rw [ha]
  exact if_neg fun h => nomatch h.2

theorem zero_precedes_finite (q : Rat) :
    (Extent.finite 0 0).precedes (.finite q 0) = decide (0 < q) := by
  change (Extent.compareFinite 0 0 q 0 == .lt) = _
  rw [Extent.compareFinite_unshifted, compareOfLessAndEq]
  by_cases hpos : 0 < q
  · simp [hpos]
  · by_cases hzero : 0 = q <;> simp [hpos, hzero]

theorem orOverflow_map (hq : 0 < q) : ((orOverflow (floatOfRat? q)).map fun _ => true) =
    if q < Binary.limit then .ok true else .error .overflow := by
  have hsome := Binary.floatOfRat?_isSome_iff hq
  cases hx : floatOfRat? q with
  | some x =>
    rw [hx] at hsome
    rw [if_pos (hsome.mp rfl)]
    rfl
  | none =>
    rw [hx] at hsome
    rw [if_neg fun h => nomatch hsome.mpr h]
    rfl

theorem toRat?_of_extent_float {x : Float} (h : (float x).extent = .finite q 0) :
    (Binary.ofFloat x).isFinite = true ∧ (Binary.ofFloat x).toRat? = some q := by
  cases hx : Binary.ofFloat x with
  | finite negative significand scale =>
    obtain ⟨p, hp⟩ := Binary.exists_toRat? negative significand scale
    simp only [extent, hx, hp, Option.getD_some] at h
    cases h
    exact ⟨rfl, hp⟩
  | infinity negative => simp only [extent, hx, reduceCtorEq] at h
  | notANumber => simp only [extent, hx, reduceCtorEq] at h

theorem isFinite_of_extent (ha : a.isDecimal = false) (hq : a.extent = .finite q 0)
    (hpos : 0 < q) : a.isFinite = if q < Binary.limit then .ok true else .error .overflow := by
  cases a with
  | truth b =>
    cases hq
    exact orOverflow_map hpos
  | integer n =>
    cases hq
    exact orOverflow_map hpos
  | ratio p =>
    cases hq
    exact orOverflow_map hpos
  | float x =>
    obtain ⟨hfinite, hrat⟩ := toRat?_of_extent_float hq
    rw [if_pos (Binary.lt_limit_of_toRat? hrat)]
    exact congrArg Except.ok hfinite
  | decimal d => cases ha
  | labelled l form => cases hq

/-- What is greater than zero without being finite is an infinite double. -/
theorem isFinite_of_infinite (ha : a.isDecimal = false) (hnot : ∀ q, a.extent ≠ .finite q 0)
    (hpos : (Extent.finite 0 0).precedes a.extent = true) : a.isFinite = .ok false := by
  cases a with
  | truth b => exact absurd rfl (hnot _)
  | integer n => exact absurd rfl (hnot _)
  | ratio p => exact absurd rfl (hnot _)
  | float x =>
    refine congrArg Except.ok ?_
    cases hx : Binary.ofFloat x with
    | finite negative significand scale =>
      have hextent : (float x).extent =
          .finite (((Binary.finite negative significand scale).toRat?).getD 0) 0 := by
        simp only [extent, hx]
      exact absurd hextent (hnot _)
    | infinity negative => rfl
    | notANumber => rfl
  | decimal d => cases ha
  | labelled l form => cases hpos

end Number

namespace PhysicalUnit

open Number

variable {a : Number} {q : Rat} {m : DimensionMap} {items : List Value}
  {dimensions aliases : Value} {u : PhysicalUnit}

theorem checkFactor_number (ha : a.isDecimal = false) :
    checkFactor (.number a) = if (Extent.finite 0 0).precedes a.extent then
      a.isFinite >>= fun finite => if finite then .ok () else .error .improperFactor
    else .error .improperFactor := by
  change (a.isPositive >>= fun positive => if positive then
    a.isFinite >>= fun finite => if finite then .ok () else .error .improperFactor
    else .error .improperFactor) = _
  rw [isPositive_eq ha]
  rfl

theorem checkFactor_of_finite (ha : a.isDecimal = false) (hq : a.extent = .finite q 0) :
    checkFactor (.number a) = if 0 < q then
      if q < Binary.limit then .ok () else .error .overflow
    else .error .improperFactor := by
  rw [checkFactor_number ha, hq, zero_precedes_finite]
  by_cases hpos : 0 < q
  · rw [isFinite_of_extent ha hq hpos, if_pos hpos, if_pos (decide_eq_true hpos)]
    split
    · rfl
    · rfl
  · rw [if_neg hpos, if_neg fun h => hpos (of_decide_eq_true h)]

theorem checkFactor_of_not_finite (ha : a.isDecimal = false) (h : ∀ q, a.extent ≠ .finite q 0) :
    checkFactor (.number a) = .error .improperFactor := by
  rw [checkFactor_number ha]
  split
  · rename_i hpos
    rw [isFinite_of_infinite ha h hpos]
    rfl
  · rfl

/-- Positive and finite factors pass, unless they are too large to have a nearest double. -/
theorem checkFactor_cases (ha : a.isDecimal = false) :
    (a.IsPositiveFinite ∧ ¬a.IsBeyondDoubles ∧ checkFactor (.number a) = .ok ()) ∨
    (a.IsBeyondDoubles ∧ checkFactor (.number a) = .error .overflow) ∨
    (¬a.IsPositiveFinite ∧ checkFactor (.number a) = .error .improperFactor) := by
  by_cases hfinite : ∃ q, a.extent = .finite q 0
  · obtain ⟨q, hq⟩ := hfinite
    rw [checkFactor_of_finite ha hq, isPositiveFinite_iff hq, isBeyondDoubles_iff hq]
    split
    · rename_i hpos
      split
      · rename_i hlt
        exact .inl ⟨hpos, hlt.not_ge, rfl⟩
      · rename_i hge
        exact .inr (.inl ⟨not_lt.mp hge, rfl⟩)
    · rename_i hnot
      exact .inr (.inr ⟨hnot, rfl⟩)
  · rw [not_exists] at hfinite
    have hpositive : ¬a.IsPositiveFinite := fun ⟨q, hq, _⟩ => hfinite q hq
    exact .inr (.inr ⟨hpositive, checkFactor_of_not_finite ha hfinite⟩)

theorem checkFactor_eq_ok_iff (ha : a.isDecimal = false) :
    checkFactor (.number a) = .ok () ↔ a.IsPositiveFinite ∧ ¬a.IsBeyondDoubles := by
  rcases checkFactor_cases ha with ⟨hpositive, hnear, h⟩ | ⟨hfar, h⟩ | ⟨hnot, h⟩
  · exact iff_of_true h ⟨hpositive, hnear⟩
  · simp [h, hfar]
  · simp [h, hnot]

theorem checkFactor_eq_error_iff (ha : a.isDecimal = false) {err : Error} :
    checkFactor (.number a) = .error err ↔
      ¬a.IsPositiveFinite ∧ err = .improperFactor ∨ a.IsBeyondDoubles ∧ err = .overflow := by
  rcases checkFactor_cases ha with ⟨hpositive, hnear, h⟩ | ⟨hfar, h⟩ | ⟨hnot, h⟩
  · simp [h, hpositive, hnear]
  · simp [h, hfar, hfar.isPositiveFinite, eq_comm]
  · have hnear : ¬a.IsBeyondDoubles := fun hfar => hnot hfar.isPositiveFinite
    simp [h, hnot, hnear, eq_comm]

theorem build_of_checkFactor {factor : Value} (hd : DimensionMap.normalize dimensions = .ok m)
    (hi : aliases.items = .ok items) :
    build dimensions factor aliases =
      (checkFactor factor).map fun _ => ⟨m, factor, items⟩ := by
  unfold build
  rw [hd, hi]
  cases checkFactor factor <;> rfl

theorem normalize_of_build {factor : Value} (h : build dimensions factor aliases = .ok u) :
    DimensionMap.normalize dimensions = .ok u.dimensions := by
  obtain ⟨_, -, h⟩ := bind_eq_ok_iff.mp h
  obtain ⟨m, hm, h⟩ := bind_eq_ok_iff.mp h
  obtain ⟨items, -, h⟩ := bind_eq_ok_iff.mp h
  cases h
  exact hm

theorem normalize_of_ofParts {parts : PhysicalParts} (h : ofParts parts = .ok u) :
    ∃ d, parts.dimensions = some d ∧ DimensionMap.normalize d = .ok u.dimensions := by
  unfold ofParts at h
  split at h
  · rename_i d _ hd
    exact ⟨d, hd, normalize_of_build h⟩
  · cases h

/-- With dimensions and aliases that are accepted, a unit is built exactly if its factor is
positive, finite and not too large to have a nearest double. A factor that is not positive and
finite is refused as improper, one that is too large overflows, and there is no other error. Units
have dimensions in normal form, in the order of the map that was given. -/
theorem built_exactly_below_limit (hd : DimensionMap.normalize dimensions = .ok m)
    (hi : aliases.items = .ok items) (ha : a.isDecimal = false) :
    (∀ u, build dimensions (.number a) aliases = .ok u ↔
      (a.IsPositiveFinite ∧ ¬a.IsBeyondDoubles) ∧ u = ⟨m, .number a, items⟩) ∧
    (∀ err, build dimensions (.number a) aliases = .error err ↔
      ¬a.IsPositiveFinite ∧ err = .improperFactor ∨ a.IsBeyondDoubles ∧ err = .overflow) ∧
    ∀ parts u, ofParts parts = .ok u → ∃ d, parts.dimensions = some d ∧
      DimensionMap.normalize u.dimensions.toValue = .ok u.dimensions ∧
      ∀ entries, d = .map entries → d.HasUniqueKeys →
        ∃ powers, List.Forall₂ DimensionMap.AcceptedAs entries powers ∧
          u.dimensions.entries = powers.filter fun p => p.2 ≠ 0 := by
  rw [build_of_checkFactor hd hi]
  refine ⟨fun u => ?_, fun err => ?_, fun parts u h => ?_⟩
  · rw [map_eq_ok_iff, ← checkFactor_eq_ok_iff ha]
    exact ⟨fun ⟨_, hcheck, hu⟩ => ⟨hcheck, hu.symm⟩, fun ⟨hcheck, hu⟩ => ⟨(), hcheck, hu.symm⟩⟩
  · rw [map_eq_error_iff, checkFactor_eq_error_iff ha]
  · obtain ⟨d, hparts, hnormal⟩ := normalize_of_ofParts h
    refine ⟨d, hparts, Unchecked.normalize_toValue u.dimensions, ?_⟩
    rintro entries rfl hkeys
    exact (DimensionMap.normalize_eq_ok_iff hkeys).mp hnormal

theorem greatest_whole_factor_accepted :
    DimensionMap.normalize (.map [(.text "m", .integer 1)]) = .ok (.ofList [("m", 1)]) ∧
      (Value.list [.text "reach"]).items = .ok [.text "reach"] ∧
      (Number.integer (Binary.limit - 1)).isDecimal = false ∧
      build (.map [(.text "m", .integer 1)]) (.integer (Binary.limit - 1))
        (.list [.text "reach"]) =
          .ok ⟨.ofList [("m", 1)], .integer (Binary.limit - 1), [.text "reach"]⟩ := by
  have hlarge : 1 < Binary.limit := by
    have hlimit := Binary.limit_add_halfPlace
    have hpos := Binary.halfPlace_pos
    omega
  have hpred : (0 : Int) < Binary.limit - 1 := Int.sub_pos.mpr (by exact_mod_cast hlarge)
  have hpositive : (Number.integer (Binary.limit - 1)).IsPositiveFinite :=
    (isPositiveFinite_iff rfl).mpr (Int.cast_pos.mpr hpred)
  have hnear : ¬(Number.integer (Binary.limit - 1)).IsBeyondDoubles := by
    rw [isBeyondDoubles_iff rfl, not_le, Int.cast_sub, Int.cast_natCast, Int.cast_one]
    exact sub_one_lt _
  exact ⟨rfl, rfl, rfl,
    ((built_exactly_below_limit rfl rfl rfl).1 _).mpr ⟨⟨hpositive, hnear⟩, rfl⟩⟩

/-- A factor beyond the doubles is positive and finite, and yet not accepted. -/
theorem vast_factor_overflows :
    (Number.integer (10 ^ 400)).IsPositiveFinite ∧
      build (.map [(.text "m", .integer 1)]) (.integer (10 ^ 400)) (.list []) =
        .error .overflow ∧
      Error.overflow.kind.isA .registry = false := by
  have hpos : (0 : Rat) < ((10 ^ 400 : Int) : Rat) := Int.cast_pos.mpr (by positivity)
  have hfar (k : Nat) (hle : Binary.limit ≤ 10 ^ k) : ¬((10 ^ k : Int) : Rat) < Binary.limit := by
    rw [not_lt]
    exact_mod_cast hle
  refine ⟨⟨_, rfl, hpos⟩, ?_, rfl⟩
  rw [build_of_checkFactor (m := .ofList [("m", 1)]) rfl rfl, checkFactor_of_finite rfl rfl,
    if_pos hpos, if_neg (hfar 400 (by decide +kernel))]
  rfl

end PhysicalUnit

end QuantityCalculus
