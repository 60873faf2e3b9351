import QuantityCalculus.Proofs.Dimension.Text
import QuantityCalculus.Proofs.UnitExpr.Product
import QuantityCalculus.Quantity.Text

/-!
# Writing and reading back

Maps whose symbols are names can be written and read back. The factors of the text are
the entries of all maps in some order, reading multiplies them, and a product does not
depend on the order of its factors: what is read is the sum of the maps.
-/
namespace QuantityCalculus

theorem exponentSum_flatMap {α : Type} (s : String) (powers : α → List (String × Int))
    (items : List α) :
    exponentSum s (items.flatMap powers) = (items.map fun v => exponentSum s (powers v)).sum := by
  induction items with
  | nil => rfl
  | cons v rest ih =>
    rw [List.flatMap_cons, exponentSum_append, ih, List.map_cons, List.sum_cons]

namespace DimensionMap

def Named (m : DimensionMap) : Prop := ∀ s ∈ m.symbols, UnitExpr.isName s.toList = true

instance (m : DimensionMap) : Decidable m.Named :=
  inferInstanceAs (Decidable (∀ s ∈ m.symbols, UnitExpr.isName s.toList = true))

theorem writable_of_mem {m : DimensionMap} (hnamed : m.Named) (hprint : m.Printable)
    {e : String × Int} (he : e ∈ m.entries) : UnitExpr.Writable e :=
  ⟨hnamed e.1 (List.mem_map_of_mem he), hprint e he⟩

theorem ofList_agrees_sum {maps : List DimensionMap} {product : List (String × Int)}
    (h : product.Perm (maps.flatMap entries)) : (ofList product).agrees (sum maps) = true := by
  apply (agrees_iff_exponent _ _).mpr
  intro s
  rw [exponent_ofList, exponentSum_perm s h, exponentSum_flatMap, exponent_sum]
  simp only [exponentSum_entries]

theorem agrees_of_exponent {a b c : DimensionMap} (h : a.agrees b = true)
    (heq : ∀ s, b.exponent s = c.exponent s) : a.agrees c = true := by
  rw [agrees_iff_exponent] at h ⊢
  intro s
  rw [h, heq]

end DimensionMap

namespace UnitExpr

variable {maps : List DimensionMap}

/-- However the factors of all entries are ordered, their product is read as the sum. -/
theorem readValue_join_of_perm (hnamed : ∀ m ∈ maps, m.Named) (hprint : ∀ m ∈ maps, m.Printable)
    {product : List (String × Int)} (h : product.Perm (maps.flatMap DimensionMap.entries)) :
    Yields (readValue (.text (Layout.plain.join (product.map Layout.plain.factor)))) fun back =>
      back.agrees (.sum maps) = true := by
  have hwritable : ∀ e ∈ product, Writable e := by
    intro e he
    obtain ⟨m, hm, hem⟩ := List.mem_flatMap.mp (h.mem_iff.mp he)
    exact DimensionMap.writable_of_mem (hnamed m hm) (hprint m hm) hem
  rw [readValue_join hwritable]
  exact .ok (DimensionMap.ofList_agrees_sum h)

theorem readValue_renderAll (hnamed : ∀ m ∈ maps, m.Named) (hprint : ∀ m ∈ maps, m.Printable) :
    Yields (readValue (.text (DimensionMap.renderAll .plain maps))) fun back =>
      back.agrees (.sum maps) = true := by
  rw [DimensionMap.renderAll_eq]
  apply readValue_join_of_perm hnamed hprint
  exact List.Perm.flatMap_left maps fun m _ => m.sorted_perm

theorem readValue_render {m : DimensionMap} (hnamed : m.Named) (hprint : m.Printable) :
    Yields (readValue (.text (m.render .plain))) fun back => back.agrees m = true := by
  have hback : Yields (readValue (.text (DimensionMap.renderAll .plain [m]))) fun back =>
      back.agrees (.sum [m]) = true :=
    readValue_renderAll (by simpa using hnamed) (by simpa using hprint)
  refine hback.mono fun back h => DimensionMap.agrees_of_exponent h fun s => ?_
  simp [DimensionMap.exponent_sum]

theorem readValue_unitsText {d : Dimensions} (hnamed : ∀ m ∈ d.maps, m.Named)
    (hprint : ∀ m ∈ d.maps, m.Printable) :
    Yields (do readValue (.text (← Quantity.unitsText .plain d))) fun back =>
      back.agrees (d.physical + d.algebraic + d.symbolic) = true := by
  have hd : d.Printable := hprint
  unfold Quantity.unitsText
  rw [if_pos hd]
  refine (readValue_renderAll hnamed hprint).mono fun back h => ?_
  refine DimensionMap.agrees_of_exponent h fun s => ?_
  simp only [DimensionMap.exponent_sum, Dimensions.maps, List.map_cons, List.map_nil,
    List.sum_cons, List.sum_nil, DimensionMap.exponent_add]
  omega

/-- Writing maps and reading the text gives their sum, whether they are written as
exponent maps or as unchecked values; a single map and three namespaces are such maps. -/
theorem readValue_renderings (hnamed : ∀ m ∈ maps, m.Named) (hprint : ∀ m ∈ maps, m.Printable) :
    Yields (do readValue (.text (← Unchecked.renderAll .plain (maps.map DimensionMap.toValue))))
        (fun back => back.agrees (.sum maps) = true) ∧
      Yields (readValue (.text (DimensionMap.renderAll .plain maps)))
        (fun back => back.agrees (.sum maps) = true) ∧
      (∀ m ∈ maps, Yields (readValue (.text (m.render .plain))) fun back =>
        back.agrees m = true) ∧
      ∀ d : Dimensions, (∀ m ∈ d.maps, m ∈ maps) →
        Yields (do readValue (.text (← Quantity.unitsText .plain d))) fun back =>
          back.agrees (d.physical + d.algebraic + d.symbolic) = true := by
  refine ⟨?_, readValue_renderAll hnamed hprint, ?_, ?_⟩
  · refine (Unchecked.renderAll_toValue_yields .plain hprint).bind fun text htext => ?_
    obtain ⟨product, hperm, rfl⟩ := htext
    exact readValue_join_of_perm hnamed hprint hperm
  · intro m hm
    exact readValue_render (hnamed m hm) (hprint m hm)
  · intro d hd
    exact readValue_unitsText (fun m hm => hnamed m (hd m hm)) fun m hm => hprint m (hd m hm)

theorem readValue_speed_times_time :
    let maps : List DimensionMap := [.ofList [("m", 1), ("s", -1)], .ofList [("s", 1)]]
    (∀ m ∈ maps, m.Named) ∧ (∀ m ∈ maps, m.Printable) ∧
      Yields (readValue (.text (DimensionMap.renderAll .plain maps)))
        fun back => back.agrees (.sum maps) = true := by
  intro maps
  have hnamed : ∀ m ∈ maps, m.Named := by decide +kernel
  have hprint : ∀ m ∈ maps, m.Printable := by decide +kernel
  exact ⟨hnamed, hprint, (readValue_renderings hnamed hprint).2.1⟩

end UnitExpr

end QuantityCalculus
