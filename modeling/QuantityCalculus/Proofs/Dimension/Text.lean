import Mathlib.Data.String.Basic
import QuantityCalculus.Dimension.Text
import QuantityCalculus.Dimension.UncheckedText
import QuantityCalculus.Proofs.Dimension.Laws
import QuantityCalculus.Proofs.Dimension.Unchecked
import QuantityCalculus.Proofs.Sorting.Ascending

/-!
# Dimensions as factors

A rendering of maps is a join of factors, one for every entry of every map, in order of
the symbols within a map. It is the same whether the maps are rendered as they are or as
unchecked values, and no symbol occurs twice in a map, so maps that agree are rendered
alike.
-/
namespace QuantityCalculus

def Value.sortKey : Value → String
  | text s => s
  | _ => ""

theorem Value.decides_texts :
    Sorting.Decides (ε := Error) Value.precedes (fun v => ∃ s, v = .text s) Value.sortKey := by
  rintro _ _ ⟨s, rfl⟩ ⟨t, rfl⟩
  unfold precedes sortKey
  rfl

namespace DimensionMap

variable (m : DimensionMap)

theorem printable_iff_exponent :
    m.Printable ↔ ∀ s, Text.HasNumeral (m.exponent s) := by
  constructor
  · intro h s
    by_cases hzero : m.exponent s = 0
    · rw [hzero]
      exact Nat.pow_pos (by decide)
    · exact h (s, m.exponent s) (m.mem_entries_iff.mpr ⟨rfl, hzero⟩)
  · intro h e he
    rw [← (m.mem_entries_iff.mp he).1]
    exact h e.1

theorem sorted_perm : m.sorted.Perm m.entries := List.mergeSort_perm _ _

/-- The checked rendering joins the factors of all entries. -/
theorem renderAll_eq (layout : Layout) (maps : List DimensionMap) :
    renderAll layout maps = layout.join ((maps.flatMap sorted).map layout.factor) := by
  unfold renderAll factors
  rw [List.map_flatMap]

section Agreement

variable {a b : DimensionMap} {layout : Layout}

theorem Printable.of_agrees (ha : a.Printable) (h : a.agrees b = true) : b.Printable := by
  intro e he
  exact ha e ((agrees_iff_perm a b).mp h |>.mem_iff.mpr he)

theorem sorted_pairwise (m : DimensionMap) : m.sorted.Pairwise fun e f => e.1 ≤ f.1 := by
  have hsorted : m.sorted.Pairwise fun e f => decide (e.1 ≤ f.1) = true := by
    refine List.pairwise_mergeSort (fun e f g hef hfg => ?_) (fun e f => ?_) m.entries
    · simp only [decide_eq_true_eq] at hef hfg ⊢
      exact String.le_trans hef hfg
    · simpa using String.le_total e.1 f.1
  exact hsorted.imp of_decide_eq_true

/-- No symbol occurs twice, so the entries have one order only. -/
theorem eq_sorted_of_perm {powers : List (String × Int)} (hperm : powers.Perm a.entries)
    (hpowers : powers.Pairwise fun e f => e.1 ≤ f.1) : powers = a.sorted := by
  have hsorted := hperm.trans a.sorted_perm.symm
  refine hsorted.eq_of_pairwise ?_ hpowers a.sorted_pairwise
  intro e f he hf hef hfe
  have hsymbol : e.1 = f.1 := String.le_antisymm hef hfe
  have hea := a.mem_entries_iff.mp (hperm.mem_iff.mp he)
  have hfa := a.mem_entries_iff.mp (a.sorted_perm.mem_iff.mp hf)
  exact Prod.ext hsymbol (by rw [← hea.1, hsymbol, hfa.1])

theorem sorted_eq_of_agrees (h : a.agrees b = true) : a.sorted = b.sorted :=
  eq_sorted_of_perm (a.sorted_perm.trans ((agrees_iff_perm a b).mp h)) a.sorted_pairwise

theorem render_eq_of_agrees (h : a.agrees b = true) : a.render layout = b.render layout := by
  simp only [render, renderAll, factors, List.flatMap_singleton, sorted_eq_of_agrees h]

end Agreement

def keyOf (e : String × Int) : Value := .text e.1

theorem items_toValue : m.toValue.items = .ok (m.entries.map keyOf) := by
  simp [toValue, Value.items, keyOf, Function.comp_def]

theorem ascending_keys : Value.ascending (m.entries.map keyOf) = .ok (m.sorted.map keyOf) := by
  have htexts : ∀ v ∈ m.entries.map keyOf, ∃ s, v = Value.text s := by
    intro v hv
    obtain ⟨e, -, rfl⟩ := List.mem_map.mp hv
    exact ⟨e.1, rfl⟩
  obtain ⟨sorted, hsorted, hperm, horder⟩ :=
    Sorting.ascending_yields_le Value.decides_texts htexts
  have hcomp := congrFun₂ (List.eq_map_comp_perm keyOf) sorted m.entries
  obtain ⟨powers, rfl, hpowers⟩ := hcomp.mpr hperm
  rw [List.pairwise_map] at horder
  have heq : powers = m.sorted := eq_sorted_of_perm hpowers horder
  rw [Value.ascending, hsorted, heq]

theorem subscript_toValue {e : String × Int} (he : e ∈ m.entries) :
    m.toValue.subscript (keyOf e) = .ok (.integer e.2) := by
  obtain ⟨hexponent, hne⟩ := m.mem_entries_iff.mp he
  rw [← hexponent] at hne ⊢
  exact Unchecked.subscript_toValue_of_exponent hne

end DimensionMap

namespace Dimensions

theorem printable_iff_exponent (d : Dimensions) :
    d.Printable ↔ ∀ ns s, Text.HasNumeral (d.exponent ns s) := by
  have hmaps : d.Printable ↔ ∀ ns, (d.get ns).Printable := by
    simp only [Printable, maps, List.forall_mem_cons, List.not_mem_nil, false_implies,
      implies_true, and_true, Namespace.forall_iff]
    rfl
  simp only [hmaps, DimensionMap.printable_iff_exponent]
  rfl

variable (m : DimensionMap)

theorem printable_single : (single .physical m).Printable ↔ m.Printable := by
  have hempty : (∅ : DimensionMap).Printable := fun e he => by cases he
  simp [Printable, maps, single, hempty]

theorem render_single (layout : Layout) :
    (single .physical m).render layout = m.render layout := by
  have hempty : (∅ : DimensionMap).factors layout = [] := by
    rw [DimensionMap.factors, List.map_eq_nil_iff]
    exact (DimensionMap.sorted_perm ∅).eq_nil
  simp [render, maps, single, DimensionMap.render, DimensionMap.renderAll, hempty]

end Dimensions

namespace Unchecked

theorem display_integer {n : Int} (h : Text.HasNumeral n) :
    (Value.integer n).display = .ok n.repr := by
  simp [Value.display, Value.isPrintable, Number.Printable, h, Value.plainText, Number.text]

theorem display_text (s : String) : (Value.text s).display = .ok s := rfl

theorem equals_one (n : Int) : (Value.integer n).equals (.integer 1) = .ok (decide (n = 1)) := by
  unfold Value.equals
  exact Number.compareEqual_integer n 1

theorem factor_entry (layout : Layout) {e : String × Int} (h : Text.HasNumeral e.2) :
    factor layout (.text e.1) (.integer e.2) = .ok (.text (layout.factor e)) := by
  unfold factor superscript Layout.factor
  rw [display_text, equals_one, display_integer h]
  by_cases hone : e.2 = 1
  · cases layout <;> simp [hone, bind, Except.bind]
  · cases layout <;> simp [hone, bind, Except.bind, Layout.exponentMark, String.append_assoc]

def factorTexts (layout : Layout) (powers : List (String × Int)) : List Value :=
  powers.map fun e => .text (layout.factor e)

theorem factors_toValue (layout : Layout) {m : DimensionMap} (h : m.Printable) :
    factors layout m.toValue = .ok (factorTexts layout m.sorted) := by
  have hfactors : ∀ e ∈ m.sorted,
      (do factor layout (DimensionMap.keyOf e) (← m.toValue.subscript (DimensionMap.keyOf e))) =
        .ok (.text (layout.factor e)) := by
    intro e he
    have hmem : e ∈ m.entries := m.sorted_perm.mem_iff.mp he
    rw [m.subscript_toValue hmem]
    exact factor_entry layout (h e hmem)
  unfold factors
  rw [m.items_toValue, ok_bind, m.ascending_keys, ok_bind, List.mapM_map]
  exact mapM_eq_ok_map hfactors

theorem asText_factorTexts (layout : Layout) (powers : List (String × Int)) :
    (factorTexts layout powers).mapM asText = .ok (powers.map layout.factor) := by
  unfold factorTexts
  rw [List.mapM_map]
  exact mapM_eq_ok_map fun e _ => rfl

/-- Canonical maps are rendered alike as unchecked values and as they are. -/
theorem renderAll_toValue (layout : Layout) {maps : List DimensionMap}
    (h : ∀ m ∈ maps, m.Printable) :
    renderAll layout (maps.map DimensionMap.toValue) =
      .ok (DimensionMap.renderAll layout maps) := by
  have hparts : (maps.map DimensionMap.toValue).mapM (factors layout) =
      .ok (maps.map fun m => factorTexts layout m.sorted) := by
    rw [List.mapM_map]
    exact mapM_eq_ok_map fun m hm => factors_toValue layout (h m hm)
  have hflat : (maps.map fun m => factorTexts layout m.sorted).flatten =
      factorTexts layout (maps.flatMap DimensionMap.sorted) := by
    unfold factorTexts
    rw [List.map_flatMap, List.flatMap_def]
  unfold renderAll
  rw [hparts, ok_bind, hflat, asText_factorTexts, ok_bind, DimensionMap.renderAll_eq]

theorem renderAll_toValue_yields (layout : Layout) {maps : List DimensionMap}
    (h : ∀ m ∈ maps, m.Printable) :
    Yields (renderAll layout (maps.map DimensionMap.toValue)) fun text =>
      ∃ powers : List (String × Int), powers.Perm (maps.flatMap DimensionMap.entries) ∧
        text = layout.join (powers.map layout.factor) := by
  rw [renderAll_toValue layout h]
  exact .ok ⟨_, .flatMap_left maps fun m _ => m.sorted_perm, DimensionMap.renderAll_eq layout maps⟩

end Unchecked

end QuantityCalculus
