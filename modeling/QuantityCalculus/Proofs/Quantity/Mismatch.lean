import QuantityCalculus.Proofs.Dimension.Laws
import QuantityCalculus.Proofs.Dimension.Text
import QuantityCalculus.Quantity.Basic

/-!
# Sums across dimensions

Quantities whose dimensions give some symbol different exponents have no sum and no
difference. Their payloads and the strategy play no part in that: the refusal carries the
dimensions of both sides, in their order. It also shows them, so it gives way to the error of
showing them exactly if some exponent of either side has no numeral.
-/
namespace QuantityCalculus

namespace Dimensions

/-- Some symbol of some namespace has different exponents. -/
def Unlike (a b : Dimensions) : Prop := ∃ ns x, a.exponent ns x ≠ b.exponent ns x

def BothShowable (a b : Dimensions) : Prop :=
  ∀ ns x, Text.HasNumeral (a.exponent ns x) ∧ Text.HasNumeral (b.exponent ns x)

variable {a b : Dimensions}

theorem Unlike.symm (h : a.Unlike b) : b.Unlike a := by
  obtain ⟨ns, x, hx⟩ := h
  exact ⟨ns, x, hx.symm⟩

theorem agrees_eq_false_iff : a.agrees b = false ↔ a.Unlike b := by
  rw [← Bool.not_eq_true, agrees_iff_exponent]
  simp [Unlike]

theorem printable_and_iff : (a.Printable ∧ b.Printable) ↔ a.BothShowable b := by
  simp only [printable_iff_exponent, BothShowable, forall_and]

end Dimensions

namespace Quantity

variable {op : AdditiveOp} {f : Value → Value → Except Error Value} {a b : Quantity}

theorem combine_of_unlike (h : a.dimensions.Unlike b.dimensions) :
    combine op f a b = .error (incompatible op a.dimensions b.dimensions) := by
  rw [combine, Dimensions.agrees_eq_false_iff.mpr h]
  rfl

theorem combine_of_showable (h : a.dimensions.Unlike b.dimensions)
    (hshow : a.dimensions.BothShowable b.dimensions) :
    combine op f a b = .error (.incompatibleUnits op a.dimensions b.dimensions) := by
  rw [combine_of_unlike h, incompatible, if_pos (Dimensions.printable_and_iff.mpr hshow)]

theorem combine_of_unshowable (h : a.dimensions.Unlike b.dimensions)
    (hshow : ¬a.dimensions.BothShowable b.dimensions) :
    combine op f a b = .error .numeralTooLong := by
  rw [combine_of_unlike h, incompatible, if_neg (mt Dimensions.printable_and_iff.mp hshow)]

/-- Unlike dimensions are reported as such, with both sides, as long as they can be shown,
and otherwise the error is that of showing them. -/
theorem unlike_dimensions_refused (s : NumericStrategy) (a b : Quantity)
    (h : a.dimensions.Unlike b.dimensions) :
    (a.dimensions.BothShowable b.dimensions →
      a.add s b = .error (.incompatibleUnits .addition a.dimensions b.dimensions) ∧
      a.sub s b = .error (.incompatibleUnits .subtraction a.dimensions b.dimensions)) ∧
    (¬a.dimensions.BothShowable b.dimensions →
      a.add s b = .error .numeralTooLong ∧ a.sub s b = .error .numeralTooLong) := by
  constructor
  · intro hshow
    exact ⟨combine_of_showable h hshow, combine_of_showable h hshow⟩
  · intro hshow
    exact ⟨combine_of_unshowable h hshow, combine_of_unshowable h hshow⟩

theorem metre_and_second_refused :
    let metre : Quantity := ⟨.integer 1, .single .physical (.ofList [("m", 1)])⟩
    let second : Quantity := ⟨.integer 1, .single .physical (.ofList [("s", 1)])⟩
    metre.add .real second =
      .error (.incompatibleUnits .addition metre.dimensions second.dimensions) := by
  intro metre second
  have hunlike : metre.dimensions.Unlike second.dimensions := ⟨.physical, "m", by decide⟩
  have hshow : metre.dimensions.BothShowable second.dimensions :=
    Dimensions.printable_and_iff.mp (by decide +kernel)
  exact ((unlike_dimensions_refused .real metre second hunlike).1 hshow).1

theorem build_power (v : Value) (x : String) (n : Int) :
    build v (.map [(.text x, .integer n)]) .absent .absent =
      .ok ⟨v, .single .physical (.ofList [(x, n)])⟩ := rfl

/-- A power of the metre with the least exponent that has no numeral is built, but adding it
to a plain number, or taking it from one, fails with the error of showing it. -/
theorem unshowable_mismatch_hidden :
    let power : Quantity := ⟨.integer 1, .single .physical (.ofList [("m", 10 ^ Text.digitLimit)])⟩
    let plain := dimensionless (.integer 1)
    build (.integer 1) (.map [(.text "m", .integer (10 ^ Text.digitLimit))]) .absent .absent =
        .ok power ∧
      power.dimensions.Unlike plain.dimensions ∧
      power.add .real plain = .error .numeralTooLong ∧
      plain.sub .real power = .error .numeralTooLong ∧
      Error.kind .numeralTooLong ≠ .incompatibleUnits := by
  intro power plain
  have hexponent : power.dimensions.exponent .physical "m" = 10 ^ Text.digitLimit := by
    change (DimensionMap.ofList [("m", 10 ^ Text.digitLimit)]).exponent "m" = _
    rw [DimensionMap.exponent_ofList]
    simp
  have hunlike : power.dimensions.Unlike plain.dimensions := by
    refine ⟨.physical, "m", ?_⟩
    rw [hexponent]
    exact pow_ne_zero _ (by decide)
  have hpower : ¬∀ ns x, Text.HasNumeral (power.dimensions.exponent ns x) := fun h =>
    Text.not_hasNumeral_ten_pow (hexponent ▸ h .physical "m")
  have hadd : ¬power.dimensions.BothShowable plain.dimensions := fun h =>
    hpower fun ns x => (h ns x).1
  have hsub : ¬plain.dimensions.BothShowable power.dimensions := fun h =>
    hpower fun ns x => (h ns x).2
  exact ⟨build_power _ _ _, hunlike, combine_of_unshowable hunlike hadd,
    combine_of_unshowable hunlike.symm hsub, by decide⟩

end Quantity

end QuantityCalculus
