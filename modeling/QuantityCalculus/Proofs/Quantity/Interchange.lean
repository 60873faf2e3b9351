import QuantityCalculus.Proofs.Dimension.Reordered
import QuantityCalculus.Quantity.Text

/-!
# The order of entries is not observable

Quantities that are built from the same maps in another order have one payload and dimensions
that agree, with entries in different orders. Whatever is done with the one can be done with
the other: the results have one payload and dimensions that agree again, a failure has the
same kind and text, and renderings are the same. The dimensions that an error carries may
come in another order, so outcomes are compared by what is reported of an error.
-/
namespace QuantityCalculus

/-- What is seen of an error: its kind and its text. -/
def Error.report (e : Error) : ErrorKind × Option String := (e.kind, e.message)

def reported {α : Type} (x : Except Error α) : Except (ErrorKind × Option String) α :=
  x.mapError Error.report

theorem reported_bind {α β : Type} (x : Except Error α) (f : α → Except Error β) :
    reported (x >>= f) = reported x >>= fun a => reported (f a) := by
  cases x <;> rfl

namespace Quantity

/-- One payload, and dimensions that agree. -/
structure Alike (a b : Quantity) : Prop where
  value : a.value = b.value
  dimensions : a.dimensions.agrees b.dimensions = true

/-- Both results are alike, hence equal as far as their payload equals itself, or both fail
with the same report. -/
def SameOutcome (x y : Except Error Quantity) : Prop :=
  Corresponds (fun a b => a.Alike b ∧ a.equals b = a.value.equals a.value)
    (reported x) (reported y)

variable {a a' b b' q q' : Quantity} {op : AdditiveOp} {s : NumericStrategy}

namespace Alike

theorem refl (q : Quantity) : q.Alike q := ⟨rfl, q.dimensions.agrees_refl⟩

theorem equals (h : a.Alike a') : a.equals a' = a.value.equals a.value := by
  rw [Quantity.equals, if_pos h.dimensions, h.value]

theorem equals_congr (ha : a.Alike a') (hb : b.Alike b') : a.equals b = a'.equals b' := by
  rw [Quantity.equals, Quantity.equals, Dimensions.agrees_congr ha.dimensions hb.dimensions,
    ha.value, hb.value]

theorem sameOutcome (h : a.Alike a') : SameOutcome (.ok a) (.ok a') := .ok ⟨h, h.equals⟩

end Alike

namespace SameOutcome

theorem computed {d d' : Dimensions} (h : d.agrees d' = true) (v : Except Error Value) :
    SameOutcome (do .ok ⟨← v, d⟩) (do .ok ⟨← v, d'⟩) := by
  cases v with
  | error e => exact .error e.report
  | ok v => exact (⟨rfl, h⟩ : Alike ⟨v, d⟩ ⟨v, d'⟩).sameOutcome

theorem error {e e' : Error} (h : e.report = e'.report) : SameOutcome (.error e) (.error e') := by
  rw [SameOutcome, reported, reported, Except.mapError, Except.mapError, h]
  exact .error e'.report

theorem bind {α : Type} (x : Except Error α) {f g : α → Except Error Quantity}
    (h : ∀ v, SameOutcome (f v) (g v)) : SameOutcome (x >>= f) (x >>= g) := by
  rw [SameOutcome, reported_bind, reported_bind]
  exact (Corresponds.refl (R := Eq) (fun _ => rfl) (reported x)).bind fun v _ hv => hv ▸ h v

end SameOutcome

theorem report_incompatible (ha : a.Alike a') (hb : b.Alike b') :
    (incompatible op a.dimensions b.dimensions).report =
      (incompatible op a'.dimensions b'.dimensions).report := by
  simp only [incompatible, Dimensions.printable_iff_of_agrees ha.dimensions,
    Dimensions.printable_iff_of_agrees hb.dimensions]
  split
  · -- the dimensions in the errors differ in order, their renderings do not
    simp only [Error.report, Error.kind, Error.message,
      Dimensions.render_eq_of_agrees ha.dimensions, Dimensions.render_eq_of_agrees hb.dimensions]
  · rfl

theorem combine_alike (f : Value → Value → Except Error Value) (ha : a.Alike a')
    (hb : b.Alike b') : SameOutcome (combine op f a b) (combine op f a' b') := by
  unfold combine
  rw [Dimensions.agrees_congr ha.dimensions hb.dimensions, ha.value, hb.value]
  split
  · exact .computed ha.dimensions _
  · exact .error (report_incompatible ha hb)

theorem mul_alike (s : NumericStrategy) (ha : a.Alike a') (hb : b.Alike b') :
    SameOutcome (a.mul s b) (a'.mul s b') := by
  rw [mul, mul, ha.value, hb.value]
  exact .computed (Dimensions.mul_agrees ha.dimensions hb.dimensions) _

theorem div_alike (s : NumericStrategy) (ha : a.Alike a') (hb : b.Alike b') :
    SameOutcome (a.div s b) (a'.div s b') := by
  rw [div, div, ha.value, hb.value]
  exact .computed (Dimensions.div_agrees ha.dimensions hb.dimensions) _

theorem pow_alike (s : NumericStrategy) (ha : a.Alike a') (n : Int) :
    SameOutcome (a.pow s n) (a'.pow s n) := by
  unfold pow
  rw [ha.value]
  split
  · exact .computed (Dimensions.agrees_refl _) _
  · refine .bind _ fun power => ?_
    split
    · exact .computed (Dimensions.pow_agrees ha.dimensions n) _
    · exact .computed (Dimensions.pow_agrees ha.dimensions n) (.ok power)

theorem powBy_alike (s : NumericStrategy) (ha : a.Alike a') (n : Value) :
    SameOutcome (a.powBy s n) (a'.powBy s n) :=
  .bind _ fun n => pow_alike s ha n

theorem text_alike (layout : Layout) (ha : a.Alike a') : a.text layout = a'.text layout := by
  rw [text, text, unitsText, unitsText, ha.value, Dimensions.render_eq_of_agrees ha.dimensions]
  simp only [Dimensions.printable_iff_of_agrees ha.dimensions]

theorem notConvertible_congr {source source' target target' : DimensionMap}
    (hs : source.agrees source' = true) (ht : target.agrees target' = true) :
    notConvertible source target = notConvertible source' target' := by
  simp only [notConvertible, DimensionMap.printable_iff_of_agrees hs,
    DimensionMap.printable_iff_of_agrees ht, DimensionMap.render_eq_of_agrees hs,
    DimensionMap.render_eq_of_agrees ht]

theorem convertTo_of_ok {target : Value} {m : DimensionMap}
    (h : DimensionMap.ofSpec target = .ok m) :
    q.convertTo target =
      if q.dimensions.physical.agrees m then .ok q
      else .error (notConvertible q.dimensions.physical m) := by
  rw [convertTo, h]
  rfl

theorem convertTo_of_error {target : Value} {e : Error}
    (h : DimensionMap.ofSpec target = .error e) : q.convertTo target = .error e := by
  rw [convertTo, h]
  rfl

theorem convertTo_reordered (hq : q.Alike q') {target target' : Value}
    (h : target.Reordered target') (haccepted : DimensionMap.Accepted target) :
    SameOutcome (q.convertTo target) (q'.convertTo target') := by
  obtain ⟨m, hm⟩ := haccepted
  obtain ⟨m', hm', hagrees⟩ := DimensionMap.ofSpec_reordered h hm
  have hphysical : q.dimensions.physical.agrees q'.dimensions.physical = true :=
    (Dimensions.agrees_iff_get _ _).mp hq.dimensions .physical
  rw [convertTo_of_ok hm, convertTo_of_ok hm', DimensionMap.agrees_congr hphysical hagrees,
    notConvertible_congr hphysical hagrees]
  split
  · exact hq.sameOutcome
  · exact .error rfl

theorem convertTo_alike (hq : q.Alike q') (target : Value) :
    SameOutcome (q.convertTo target) (q'.convertTo target) := by
  cases htarget : DimensionMap.ofSpec target with
  | ok m => exact convertTo_reordered hq (.refl target) ⟨m, htarget⟩
  | error e =>
    rw [convertTo_of_error htarget, convertTo_of_error htarget]
    exact .error rfl

theorem convertTo_of_refused {entries : List (Value × Value)}
    (h : ¬DimensionMap.Accepted (.map entries)) :
    ∃ e, FirstRefusal DimensionMap.checkEntry entries e ∧
      q.convertTo (.map entries) = .error e := by
  obtain ⟨e, he, hfirst⟩ := DimensionMap.exists_firstRefusal h
  exact ⟨e, hfirst, convertTo_of_error he⟩

/-- A target that is not accepted in one order is not accepted in any other. In each order the
first entry that is refused gives the error. -/
theorem convertTo_refused {entries others : List (Value × Value)} (hperm : entries.Perm others)
    (h : ¬DimensionMap.Accepted (.map entries)) :
    ∃ e e', FirstRefusal DimensionMap.checkEntry entries e ∧
      FirstRefusal DimensionMap.checkEntry others e' ∧
      q.convertTo (.map entries) = .error e ∧ q'.convertTo (.map others) = .error e' := by
  have hothers : ¬DimensionMap.Accepted (.map others) :=
    mt (DimensionMap.accepted_iff_of_reordered (.entries hperm)).mpr h
  obtain ⟨e, hfirst, hconvert⟩ := convertTo_of_refused (q := q) h
  obtain ⟨e', hfirst', hconvert'⟩ := convertTo_of_refused (q := q') hothers
  exact ⟨e, e', hfirst, hfirst', hconvert, hconvert'⟩

/-- Whatever is done with one of the quantities can be done with the other. -/
structure Interchangeable (q q' : Quantity) : Prop where
  combine : ∀ s r r', r.Alike r' →
    SameOutcome (q.add s r) (q'.add s r') ∧ SameOutcome (r.add s q) (r'.add s q') ∧
    SameOutcome (q.sub s r) (q'.sub s r') ∧ SameOutcome (r.sub s q) (r'.sub s q')
  mul : ∀ s r r', r.Alike r' →
    SameOutcome (q.mul s r) (q'.mul s r') ∧ SameOutcome (r.mul s q) (r'.mul s q')
  div : ∀ s r r', r.Alike r' →
    SameOutcome (q.div s r) (q'.div s r') ∧ SameOutcome (r.div s q) (r'.div s q')
  pow : ∀ s n, SameOutcome (q.powBy s n) (q'.powBy s n)
  equals : ∀ r r', r.Alike r' → q.equals r = q'.equals r' ∧ r.equals q = r'.equals q'
  text : ∀ layout, q.text layout = q'.text layout
  isUnitless : q.isUnitless = q'.isUnitless
  convertTo : ∀ target, SameOutcome (q.convertTo target) (q'.convertTo target)
  convertTo_accepted : ∀ target target', target.Reordered target' →
    DimensionMap.Accepted target → SameOutcome (q.convertTo target) (q'.convertTo target')
  convertTo_refused : ∀ entries others, entries.Perm others →
    ¬DimensionMap.Accepted (.map entries) →
      ∃ e e', FirstRefusal DimensionMap.checkEntry entries e ∧
        FirstRefusal DimensionMap.checkEntry others e' ∧
        q.convertTo (.map entries) = .error e ∧ q'.convertTo (.map others) = .error e'

theorem Alike.interchangeable (hq : q.Alike q') : q.Interchangeable q' where
  combine s _ _ hr :=
    ⟨combine_alike s.add hq hr, combine_alike s.add hr hq, combine_alike s.sub hq hr,
      combine_alike s.sub hr hq⟩
  mul s _ _ hr := ⟨mul_alike s hq hr, mul_alike s hr hq⟩
  div s _ _ hr := ⟨div_alike s hq hr, div_alike s hr hq⟩
  pow s n := powBy_alike s hq n
  equals _ _ hr := ⟨hq.equals_congr hr, hr.equals_congr hq⟩
  text layout := text_alike layout hq
  isUnitless := Dimensions.isDimensionless_eq_of_agrees hq.dimensions
  convertTo target := convertTo_alike hq target
  convertTo_accepted _ _ h haccepted := convertTo_reordered hq h haccepted
  convertTo_refused _ _ hperm h := convertTo_refused hperm h

variable {v p p' x x' y y' : Value}

theorem build_reordered (hp : p.Reordered p') (hx : x.Reordered x') (hy : y.Reordered y')
    (h : build v p x y = .ok q) : ∃ q', build v p' x' y' = .ok q' ∧ q.Alike q' := by
  obtain ⟨d, hd, h⟩ := bind_eq_ok_iff.mp h
  cases h
  obtain ⟨d', hd', hagrees⟩ := Dimensions.ofValues_reordered hp hx hy hd
  refine ⟨⟨v, d'⟩, ?_, rfl, hagrees⟩
  rw [build, hd']
  rfl

/-- Maps are accepted in every order. The quantities that are built from them are as equal as
their payload is to itself, and they can be interchanged. -/
theorem order_of_entries_unobservable (hp : p.Reordered p') (hx : x.Reordered x')
    (hy : y.Reordered y') (v : Value) :
    ((∃ q, build v p x y = .ok q) ↔ ∃ q', build v p' x' y' = .ok q') ∧
      ∀ q q', build v p x y = .ok q → build v p' x' y' = .ok q' →
        q.equals q' = v.equals v ∧ q.Alike q' ∧ q.Interchangeable q' := by
  refine ⟨⟨?_, ?_⟩, fun q q' hq hq' => ?_⟩
  · rintro ⟨q, hq⟩
    obtain ⟨q', hq', -⟩ := build_reordered hp hx hy hq
    exact ⟨q', hq'⟩
  · rintro ⟨q', hq'⟩
    obtain ⟨q, hq, -⟩ := build_reordered hp.symm hx.symm hy.symm hq'
    exact ⟨q, hq⟩
  · obtain ⟨r, hr, halike⟩ := build_reordered hp hx hy hq
    cases hq'.symm.trans hr
    obtain ⟨d, -, hd⟩ := bind_eq_ok_iff.mp hq
    cases hd
    exact ⟨halike.equals, halike, halike.interchangeable⟩

theorem speed_interchangeable_with_swapped_units :
    let forth : Value := .map [(.text "m", .integer 1), (.text "s", .integer (-1))]
    let back : Value := .map [(.text "s", .integer (-1)), (.text "m", .integer 1)]
    ∃ q q', build (.integer 3) forth .absent .absent = .ok q ∧
      build (.integer 3) back .absent .absent = .ok q' ∧ q.dimensions ≠ q'.dimensions ∧
      q.equals q' = .ok true ∧ q.Interchangeable q' ∧
      SameOutcome (q.add .real q) (q'.add .real q) := by
  intro forth back
  have hphysical : forth.Reordered back := .entries (.swap _ _ _)
  obtain ⟨hequal, -, hq⟩ := (order_of_entries_unobservable hphysical (.refl .absent)
    (.refl .absent) (.integer 3)).2 _ _ rfl rfl
  exact ⟨_, _, rfl, rfl, by decide, hequal, hq, (hq.combine .real _ _ (.refl _)).1⟩

/-- A payload that is not a number keeps quantities apart whose maps differ in order, or not at
all. A target with two entries that are refused fails with a type error in one order and with
an argument error in the other. -/
theorem not_a_number_unequal_and_refused_target_ordered :
    let forth : Value := .map [(.text "m", .integer 1), (.text "s", .integer (-1))]
    let back : Value := .map [(.text "s", .integer (-1)), (.text "m", .integer 1)]
    let symbolFirst : Value := .map [(.integer 1, .integer 1), (.text "a", .number (.truth true))]
    let exponentFirst : Value := .map [(.text "a", .number (.truth true)), (.integer 1, .integer 1)]
    forth.Reordered back ∧ symbolFirst.Reordered exponentFirst ∧
      ∃ q q', build (.number (.labelled 0 .float)) forth .absent .absent = .ok q ∧
        build (.number (.labelled 0 .float)) back .absent .absent = .ok q' ∧
        q.equals q' = .ok false ∧
        reported (q.convertTo symbolFirst) = .error (.type, "Unit symbols must be str, got int") ∧
        reported (q'.convertTo exponentFirst) =
          .error (.argument, "Exponent must be an integer, got bool") :=
  ⟨.entries (.swap _ _ _), .entries (.swap _ _ _), _, _, rfl, rfl, rfl, rfl, rfl⟩

end Quantity

end QuantityCalculus
