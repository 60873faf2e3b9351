import QuantityCalculus.Proofs.Dimension.Text
import QuantityCalculus.Proofs.Dimension.Triples
import QuantityCalculus.UnitExpr.Spec

/-!
# Maps given in another order

The entries of a map from outside come in some order, and exponent maps keep it. Maps that
differ in it alone are accepted alike and denote dimensions that agree. Dimensions that agree
have sums, differences and multiples that agree, are empty alike and have the same texts.
Only a map that is refused shows its order, since the first of its entries that is refused
gives the error.
-/
namespace QuantityCalculus

/-- The same value, or a map with its entries in another order. -/
inductive Value.Reordered : Value → Value → Prop where
  | refl (v : Value) : Reordered v v
  | entries {entries others : List (Value × Value)} (h : entries.Perm others) :
    Reordered (.map entries) (.map others)

theorem Value.Reordered.symm {v w : Value} (h : v.Reordered w) : w.Reordered v := by
  cases h with
  | refl => exact .refl v
  | entries h => exact .entries h.symm

namespace DimensionMap

variable {a a' b b' : DimensionMap} {v w : Value} {entries others : List (Value × Value)}

theorem agrees_refl (m : DimensionMap) : m.agrees m = true :=
  (agrees_iff_exponent m m).mpr fun _ => rfl

theorem agrees_congr (ha : a.agrees a' = true) (hb : b.agrees b' = true) :
    a.agrees b = a'.agrees b' := by
  rw [agrees_iff_exponent] at ha hb
  rw [Bool.eq_iff_iff, agrees_iff_exponent, agrees_iff_exponent]
  simp only [ha, hb]

theorem printable_iff_of_agrees (h : a.agrees b = true) : a.Printable ↔ b.Printable :=
  ⟨fun ha => ha.of_agrees h, fun hb => hb.of_agrees (agrees_symm h)⟩

theorem ofList_agrees_of_perm {powers more : List (String × Int)} (h : powers.Perm more) :
    (ofList powers).agrees (ofList more) = true := by
  rw [agrees_iff_exponent]
  intro s
  rw [exponent_ofList, exponent_ofList, exponentSum_perm s h]

/-- A map without entries needs no case of its own. -/
theorem normalize_map (entries : List (Value × Value)) :
    normalize (.map entries) = (entries.mapM checkEntry).map ofList := by
  unfold normalize
  split
  · rename_i hvacant
    rw [List.isEmpty_iff.mp hvacant]
    rfl
  · exact bind_ok_eq_map

theorem normalize_reordered (h : v.Reordered w) (hv : normalize v = .ok a) :
    ∃ b, normalize w = .ok b ∧ a.agrees b = true := by
  cases h with
  | refl => exact ⟨a, hv, a.agrees_refl⟩
  | entries hperm =>
    rw [normalize_map] at hv
    obtain ⟨powers, hpowers, rfl⟩ := map_eq_ok_iff.mp hv
    obtain ⟨more, hmore, hmperm⟩ := exists_mapM_of_perm hperm hpowers
    refine ⟨ofList more, ?_, ofList_agrees_of_perm hmperm.symm⟩
    rw [normalize_map, hmore]
    rfl

def Accepted (spec : Value) : Prop := ∃ m, ofSpec spec = .ok m

theorem ofSpec_reordered (h : v.Reordered w) (hv : ofSpec v = .ok a) :
    ∃ b, ofSpec w = .ok b ∧ a.agrees b = true := by
  cases h with
  | refl => exact ⟨a, hv, a.agrees_refl⟩
  | entries hperm => exact normalize_reordered (.entries hperm) hv

theorem accepted_iff_of_reordered (h : v.Reordered w) : Accepted v ↔ Accepted w := by
  constructor
  · rintro ⟨a, hv⟩
    obtain ⟨b, hw, -⟩ := ofSpec_reordered h hv
    exact ⟨b, hw⟩
  · rintro ⟨b, hw⟩
    obtain ⟨a, hv, -⟩ := ofSpec_reordered h.symm hw
    exact ⟨a, hv⟩

theorem accepted_map_iff :
    Accepted (.map entries) ↔ ∀ e ∈ entries, ∃ p, checkEntry e = .ok p := by
  change (∃ m, normalize (.map entries) = .ok m) ↔ _
  simp only [normalize_map, map_eq_ok_iff]
  rw [exists_comm]
  simp only [exists_and_left, exists_eq', and_true, exists_mapM_iff]

theorem ofSpec_map_eq_error_iff {e : Error} :
    ofSpec (.map entries) = .error e ↔ FirstRefusal checkEntry entries e := by
  change normalize (.map entries) = .error e ↔ _
  rw [normalize_map, map_eq_error_iff, mapM_eq_error_iff]

theorem exists_firstRefusal (h : ¬Accepted (.map entries)) :
    ∃ e, ofSpec (.map entries) = .error e ∧ FirstRefusal checkEntry entries e := by
  cases hspec : ofSpec (.map entries) with
  | ok m => exact absurd ⟨m, hspec⟩ h
  | error e => exact ⟨e, rfl, ofSpec_map_eq_error_iff.mp hspec⟩

end DimensionMap

namespace Dimensions

variable {a a' b b' : Dimensions}

theorem agrees_refl (d : Dimensions) : d.agrees d = true :=
  (agrees_iff_exponent d d).mpr fun _ _ => rfl

theorem ofValues_reordered {p p' q q' r r' : Value} (hp : p.Reordered p') (hq : q.Reordered q')
    (hr : r.Reordered r') (h : ofValues p q r = .ok a) :
    ∃ b, ofValues p' q' r' = .ok b ∧ a.agrees b = true := by
  obtain ⟨mp, hmp, h⟩ := bind_eq_ok_iff.mp h
  obtain ⟨mq, hmq, h⟩ := bind_eq_ok_iff.mp h
  obtain ⟨mr, hmr, h⟩ := bind_eq_ok_iff.mp h
  cases h
  obtain ⟨np, hnp, hpagrees⟩ := DimensionMap.normalize_reordered hp hmp
  obtain ⟨nq, hnq, hqagrees⟩ := DimensionMap.normalize_reordered hq hmq
  obtain ⟨nr, hnr, hragrees⟩ := DimensionMap.normalize_reordered hr hmr
  refine ⟨⟨np, nq, nr⟩, ?_, (agrees_iff_get _ _).mpr ?_⟩
  · rw [ofValues, hnp, hnq, hnr]
    rfl
  · exact Namespace.forall_iff.mpr ⟨hpagrees, hqagrees, hragrees⟩

theorem agrees_congr (ha : a.agrees a' = true) (hb : b.agrees b' = true) :
    a.agrees b = a'.agrees b' := by
  rw [agrees_iff_get] at ha hb
  rw [Bool.eq_iff_iff, agrees_iff_get, agrees_iff_get]
  simp only [DimensionMap.agrees_congr (ha _) (hb _)]

theorem mul_agrees (ha : a.agrees a' = true) (hb : b.agrees b' = true) :
    (a * b).agrees (a' * b') = true := by
  rw [agrees_iff_exponent] at ha hb ⊢
  intro ns s
  rw [exponent_mul, exponent_mul, ha, hb]

theorem div_agrees (ha : a.agrees a' = true) (hb : b.agrees b' = true) :
    (a / b).agrees (a' / b') = true := by
  rw [agrees_iff_exponent] at ha hb ⊢
  intro ns s
  rw [exponent_div, exponent_div, ha, hb]

theorem pow_agrees (ha : a.agrees a' = true) (n : Int) : (a ^ n).agrees (a' ^ n) = true := by
  rw [agrees_iff_exponent] at ha ⊢
  intro ns s
  rw [exponent_pow, exponent_pow, ha]

theorem isDimensionless_eq_of_agrees (ha : a.agrees a' = true) :
    a.isDimensionless = a'.isDimensionless := by
  rw [agrees_iff_exponent] at ha
  rw [Bool.eq_iff_iff, isDimensionless_iff_exponent, isDimensionless_iff_exponent]
  simp only [ha]

theorem printable_iff_of_agrees (ha : a.agrees a' = true) : a.Printable ↔ a'.Printable := by
  rw [agrees_iff_exponent] at ha
  simp only [printable_iff_exponent, ha]

theorem render_eq_of_agrees (ha : a.agrees a' = true) (layout : Layout) :
    a.render layout = a'.render layout := by
  have hsorted : ∀ ns, (a.get ns).sorted = (a'.get ns).sorted := fun ns =>
    DimensionMap.sorted_eq_of_agrees ((agrees_iff_get a a').mp ha ns)
  obtain ⟨hp, ha, hs⟩ := Namespace.forall_iff.mp hsorted
  change a.physical.sorted = a'.physical.sorted at hp
  change a.algebraic.sorted = a'.algebraic.sorted at ha
  change a.symbolic.sorted = a'.symbolic.sorted at hs
  simp only [render, maps, DimensionMap.renderAll_eq, List.flatMap_cons, hp, ha, hs]

end Dimensions

end QuantityCalculus
