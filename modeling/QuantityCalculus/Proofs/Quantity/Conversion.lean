import QuantityCalculus.Proofs.Quantity.Interchange
import QuantityCalculus.Proofs.UnitExpr.RoundTrip

/-!
# Conversion to the units of another quantity

The physical units of a quantity are a target for conversion as an exponent map and as the text
that they are printed as. Either target denotes exponents that agree with those of the quantity,
however its entries are ordered and whatever entries with exponent zero stand among them. Only
agreement is looked at, so all these targets give one outcome: the quantity that was to be
converted, or an error that shows the units on both sides. A map that is no target is refused for
the first of its entries that does not pass, so there the order of the entries shows, while entries
with exponent zero between the others still do not.
-/
namespace QuantityCalculus

/-- The same entries in any order, and among them others whose exponents stand for zero. -/
inductive Value.Padded : Value → Value → Prop where
  | entries {entries zeros padded : List (Value × Value)} (hperm : (entries ++ zeros).Perm padded)
      (hzero : ∀ e ∈ zeros, ∃ s x, e = (.text s, x) ∧ x.toExponent = .ok 0) :
      Padded (.map entries) (.map padded)

theorem Value.Padded.of_perm {entries others : List (Value × Value)} (h : entries.Perm others) :
    (Value.map entries).Padded (.map others) :=
  .entries (by rwa [List.append_nil]) (List.forall_mem_nil _)

/-- The same entries in their order, and between them others whose exponents stand for zero. -/
inductive Value.Spaced : List (Value × Value) → List (Value × Value) → Prop where
  | nil : Spaced [] []
  | entry {entries spaced : List (Value × Value)} (e : Value × Value) (h : Spaced entries spaced) :
    Spaced (e :: entries) (e :: spaced)
  | zero {entries spaced : List (Value × Value)} {s : String} {x : Value}
    (hx : x.toExponent = .ok 0) (h : Spaced entries spaced) :
    Spaced entries ((.text s, x) :: spaced)

theorem Value.Spaced.padded {entries spaced : List (Value × Value)} (h : Spaced entries spaced) :
    (Value.map entries).Padded (.map spaced) := by
  induction h with
  | nil => exact .of_perm (.refl _)
  | entry e h ih =>
    cases ih with
    | entries hperm hzero => exact .entries (hperm.cons e) hzero
  | @zero _ _ s x hx h ih =>
    cases ih with
    | entries hperm hzero =>
      refine .entries (List.perm_middle.trans (hperm.cons (.text s, x))) ?_
      exact List.forall_mem_cons.mpr ⟨⟨s, x, rfl, hx⟩, hzero⟩

namespace DimensionMap

variable {m back : DimensionMap} {v w : Value} {entries spaced zeros : List (Value × Value)}
  {powers : List (String × Int)}

theorem checkEntry_text {s : String} {x : Value} {n : Int} (h : x.toExponent = .ok n) :
    checkEntry (.text s, x) = .ok (s, n) := by
  rw [checkEntry, h]
  rfl

theorem exponentSum_eq_zero (h : ∀ p ∈ powers, p.2 = 0) (s : String) :
    exponentSum s powers = 0 := by
  induction powers with
  | nil => rfl
  | cons p rest ih =>
    rw [exponentSum_cons, ih fun p hp => h p (List.mem_cons_of_mem _ hp),
      h p List.mem_cons_self, ite_self, Int.zero_add]

theorem mapM_checkEntry_zeros (h : ∀ e ∈ zeros, ∃ s x, e = (.text s, x) ∧ x.toExponent = .ok 0) :
    ∃ powers, zeros.mapM checkEntry = .ok powers ∧ ∀ p ∈ powers, p.2 = 0 := by
  induction zeros with
  | nil => exact ⟨[], rfl, List.forall_mem_nil _⟩
  | cons e rest ih =>
    obtain ⟨⟨s, x, rfl, hx⟩, hrest⟩ := List.forall_mem_cons.mp h
    obtain ⟨powers, hpowers, hzero⟩ := ih hrest
    refine ⟨(s, 0) :: powers, ?_, List.forall_mem_cons.mpr ⟨rfl, hzero⟩⟩
    rw [List.mapM_cons, checkEntry_text hx, hpowers]
    rfl

theorem normalize_padded (h : v.Padded w) (hv : normalize v = .ok m) :
    ∃ back, normalize w = .ok back ∧ back.agrees m = true := by
  cases h with
  | @entries entries zeros padded hperm hzero =>
    rw [normalize_map] at hv
    obtain ⟨powers, hpowers, rfl⟩ := map_eq_ok_iff.mp hv
    obtain ⟨dropped, hdropped, hdzero⟩ := mapM_checkEntry_zeros hzero
    have happend : (entries ++ zeros).mapM checkEntry = .ok (powers ++ dropped) := by
      rw [List.mapM_append, hpowers, hdropped]
      rfl
    have hsum : (ofList (powers ++ dropped)).agrees (ofList powers) = true := by
      rw [agrees_iff_exponent]
      intro s
      rw [exponent_ofList, exponent_ofList, exponentSum_append, exponentSum_eq_zero hdzero,
        Int.add_zero]
    obtain ⟨back, hback, hagrees⟩ := normalize_reordered (.entries hperm)
      ((normalize_map _).trans (congrArg (Except.map ofList) happend))
    refine ⟨back, hback, agrees_of_exponent (agrees_symm hagrees) ?_⟩
    exact (agrees_iff_exponent _ _).mp hsum

theorem ofSpec_padded (h : v.Padded w) (hv : ofSpec v = .ok m) :
    ∃ back, ofSpec w = .ok back ∧ back.agrees m = true := by
  cases h with
  | entries hperm hzero => exact normalize_padded (.entries hperm hzero) hv

theorem accepted_of_padded (h : v.Padded w) (hw : Accepted w) : Accepted v := by
  cases h with
  | entries hperm hzero =>
    rw [accepted_map_iff] at hw ⊢
    exact fun e he => hw e (hperm.subset (List.mem_append_left _ he))

/-- Entries with exponent zero pass, so the first entry that does not is the same. -/
theorem firstRefusal_spaced {e : Error} (h : Value.Spaced entries spaced)
    (hfirst : FirstRefusal checkEntry entries e) : FirstRefusal checkEntry spaced e := by
  induction h with
  | nil => exact hfirst
  | entry f h ih =>
    rw [firstRefusal_cons_iff] at hfirst ⊢
    exact hfirst.imp_right fun ⟨hf, hrest⟩ => ⟨hf, ih hrest⟩
  | zero hx h ih => exact (ih hfirst).cons (checkEntry_text hx)

theorem ofSpec_render (hnamed : m.Named) (hprint : m.Printable) :
    ∃ back, ofSpec (.text (m.render .plain)) = .ok back ∧ back.agrees m = true :=
  UnitExpr.readValue_render hnamed hprint

end DimensionMap

namespace Quantity

variable {q r : Quantity} {target padded : Value} {back : DimensionMap}

theorem physicalText_eq (h : r.dimensions.physical.Printable) :
    r.physicalText = .ok (r.dimensions.physical.render .plain) := by
  unfold physicalText unitsText
  rw [if_pos ((Dimensions.printable_single _).mpr h), Dimensions.render_single]

/-- Converting to the target returns the quantity if its physical units have the exponents of the
other one's, and otherwise fails with the texts of both. -/
structure IdentityOnly (q r : Quantity) (target : Value) : Prop where
  same : (∀ s, q.dimensions.physical.exponent s = r.dimensions.physical.exponent s) →
    q.convertTo target = .ok q
  other : (∃ s, q.dimensions.physical.exponent s ≠ r.dimensions.physical.exponent s) →
    q.convertTo target =
      .error (.notConvertible (orOne (q.dimensions.physical.render .plain))
        (orOne (r.dimensions.physical.render .plain)))

theorem IdentityOnly.of_ofSpec (hq : q.dimensions.physical.Printable)
    (hr : r.dimensions.physical.Printable) (htarget : DimensionMap.ofSpec target = .ok back)
    (hback : back.agrees r.dimensions.physical = true) : q.IdentityOnly r target := by
  have hconvert := convertTo_of_ok (q := q) htarget
  rw [DimensionMap.agrees_congr (DimensionMap.agrees_refl _) hback,
    notConvertible_congr (DimensionMap.agrees_refl _) hback] at hconvert
  constructor
  · intro hsame
    rw [hconvert, if_pos ((DimensionMap.agrees_iff_exponent _ _).mpr hsame)]
  · rintro ⟨s, hs⟩
    have hdiffers : ¬q.dimensions.physical.agrees r.dimensions.physical = true := fun h =>
      hs ((DimensionMap.agrees_iff_exponent _ _).mp h s)
    rw [hconvert, if_neg hdiffers, notConvertible, if_pos ⟨hq, hr⟩]

theorem convertTo_padded (h : target.Padded padded) (haccepted : DimensionMap.Accepted target) :
    q.convertTo padded = q.convertTo target := by
  obtain ⟨m, hm⟩ := haccepted
  obtain ⟨back, hback, hagrees⟩ := DimensionMap.ofSpec_padded h hm
  rw [convertTo_of_ok hm, convertTo_of_ok hback,
    DimensionMap.agrees_congr (DimensionMap.agrees_refl _) hagrees,
    notConvertible_congr (DimensionMap.agrees_refl _) hagrees]

theorem convertTo_spaced {entries spaced : List (Value × Value)}
    (h : Value.Spaced entries spaced) : q.convertTo (.map spaced) = q.convertTo (.map entries) := by
  by_cases haccepted : DimensionMap.Accepted (.map entries)
  · exact convertTo_padded h.padded haccepted
  · obtain ⟨e, hfirst, hconvert⟩ := convertTo_of_refused (q := q) haccepted
    have hspaced := DimensionMap.firstRefusal_spaced h hfirst
    rw [hconvert, convertTo_of_error (DimensionMap.ofSpec_map_eq_error_iff.mpr hspaced)]

/-- A quantity is converted to the printed units of another one exactly as to their map. Order
and entries with exponent zero do not matter in the map, nor in any other target that is accepted.
In one that is refused, entries with exponent zero between the others do not matter either, while
each order is refused for the first of its entries that does not pass. -/
theorem conversion_to_printed_units (hq : q.dimensions.physical.Printable)
    (hr : r.dimensions.physical.Printable) (hnamed : r.dimensions.physical.Named) :
    (∃ text, r.physicalText = .ok text ∧ q.IdentityOnly r (.text text)) ∧
      q.IdentityOnly r r.dimensions.physical.toValue ∧
      (∀ padded, r.dimensions.physical.toValue.Padded padded → q.IdentityOnly r padded) ∧
      (∀ target padded, target.Padded padded → DimensionMap.Accepted target →
        q.convertTo padded = q.convertTo target) ∧
      (∀ entries spaced, Value.Spaced entries spaced →
        q.convertTo (.map spaced) = q.convertTo (.map entries)) ∧
      ∀ entries padded, (Value.map entries).Padded (.map padded) →
        ¬DimensionMap.Accepted (.map entries) →
          ∃ e e', FirstRefusal DimensionMap.checkEntry entries e ∧
            FirstRefusal DimensionMap.checkEntry padded e' ∧
            q.convertTo (.map entries) = .error e ∧ q.convertTo (.map padded) = .error e' := by
  have hmap : DimensionMap.ofSpec r.dimensions.physical.toValue = .ok r.dimensions.physical :=
    Unchecked.normalize_toValue _
  refine ⟨⟨_, physicalText_eq hr, ?_⟩, ?_, fun padded hpadded => ?_, fun target padded => ?_,
    fun entries spaced => convertTo_spaced, fun entries padded hpadded hrefused => ?_⟩
  · obtain ⟨back, hback, hagrees⟩ := DimensionMap.ofSpec_render hnamed hr
    exact .of_ofSpec hq hr hback hagrees
  · exact .of_ofSpec hq hr hmap (DimensionMap.agrees_refl _)
  · obtain ⟨back, hback, hagrees⟩ := DimensionMap.ofSpec_padded hpadded hmap
    exact .of_ofSpec hq hr hback hagrees
  · exact convertTo_padded
  · obtain ⟨e, hfirst, hconvert⟩ := convertTo_of_refused (q := q) hrefused
    obtain ⟨e', hfirst', hconvert'⟩ := convertTo_of_refused (q := q)
      (mt (DimensionMap.accepted_of_padded hpadded) hrefused)
    exact ⟨e, e', hfirst, hfirst', hconvert, hconvert'⟩

theorem speed_converts_to_printed_speed :
    let speed : Quantity := ⟨.integer 3, .single .physical (.ofList [("s", -1), ("m", 1)])⟩
    let other : Quantity := ⟨.text "fast", .single .physical (.ofList [("m", 1), ("s", -1)])⟩
    let fall : Quantity := ⟨.absent, .single .physical (.ofList [("m", 1), ("s", -2)])⟩
    let padded : Value := .map [(.text "s", .integer (-1)), (.text "kg", .integer 0),
      (.text "m", .integer 1)]
    speed.dimensions.physical.Printable ∧
      (other.dimensions.physical.Printable ∧ other.dimensions.physical.Named) ∧
      (fall.dimensions.physical.Printable ∧ fall.dimensions.physical.Named) ∧
      other.dimensions.physical.toValue.Padded padded ∧
      other.physicalText = .ok "m*s^-1" ∧ speed.convertTo (.text "m*s^-1") = .ok speed ∧
      speed.convertTo padded = .ok speed ∧ fall.physicalText = .ok "m*s^-2" ∧
      speed.convertTo (.text "m*s^-2") = .error (.notConvertible "m*s^-1" "m*s^-2") := by
  intro speed other fall padded
  have hspeed : speed.dimensions.physical.Printable := by decide +kernel
  have hother : other.dimensions.physical.Printable ∧ other.dimensions.physical.Named := by
    decide +kernel
  have hfall : fall.dimensions.physical.Printable ∧ fall.dimensions.physical.Named := by
    decide +kernel
  have hzero : ∀ e ∈ [(Value.text "kg", Value.integer 0)], ∃ s x,
      e = (Value.text s, x) ∧ x.toExponent = .ok 0 := fun e he =>
    ⟨"kg", .integer 0, List.mem_singleton.mp he, rfl⟩
  have hpadded : other.dimensions.physical.toValue.Padded padded :=
    .entries ((List.Perm.swap _ _ _).trans (.cons _ (.swap _ _ _))) hzero
  have hspeedText : speed.dimensions.physical.render .plain = "m*s^-1" := by cbv
  have hfallText : fall.dimensions.physical.render .plain = "m*s^-2" := by cbv
  have hotherText : other.dimensions.physical.render .plain = "m*s^-1" := by cbv
  have hsame : ∀ s, speed.dimensions.physical.exponent s = other.dimensions.physical.exponent s :=
    (DimensionMap.agrees_iff_exponent _ _).mp (by decide)
  obtain ⟨⟨text, htext, hprinted⟩, -, hpads, -⟩ :=
    conversion_to_printed_units hspeed hother.1 hother.2
  obtain ⟨⟨text', htext', hrefused⟩, -⟩ := conversion_to_printed_units hspeed hfall.1 hfall.2
  rw [physicalText_eq hother.1, hotherText] at htext
  rw [physicalText_eq hfall.1, hfallText] at htext'
  cases htext
  cases htext'
  have hdiffers := hrefused.other ⟨"s", by decide⟩
  rw [hspeedText, hfallText] at hdiffers
  refine ⟨hspeed, hother, hfall, hpadded, ?_, hprinted.same hsame, (hpads _ hpadded).same hsame,
    ?_, hdiffers⟩
  · rw [physicalText_eq hother.1, hotherText]
  · rw [physicalText_eq hfall.1, hfallText]

/-- A target with two entries that do not pass fails with a type error in one order and with an
argument error in the other. -/
theorem refused_target_fails_by_its_order :
    let distance : Quantity := ⟨.integer 3, .single .physical (.ofList [("m", 1)])⟩
    let symbolFirst : Value := .map [(.integer 1, .integer 1), (.text "a", .number (.truth true))]
    let exponentFirst : Value := .map [(.text "a", .number (.truth true)), (.integer 1, .integer 1)]
    (distance.dimensions.physical.Printable ∧ distance.dimensions.physical.Named) ∧
      symbolFirst.Padded exponentFirst ∧
      reported (distance.convertTo symbolFirst) =
        .error (.type, "Unit symbols must be str, got int") ∧
      reported (distance.convertTo exponentFirst) =
        .error (.argument, "Exponent must be an integer, got bool") :=
  ⟨by decide +kernel, .of_perm (.swap _ _ _), rfl, rfl⟩

end Quantity

end QuantityCalculus
