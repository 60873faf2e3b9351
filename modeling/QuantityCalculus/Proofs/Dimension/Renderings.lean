import QuantityCalculus.Proofs.UnitExpr.RoundTrip

/-!
# What a rendering shows

Plain or pretty, a rendering shows every factor: the separator stands in no factor, a factor is a
run of name characters and then a mark that begins with no such character, and the mark is made of
the numeral by characters that differ as the digits do. So maps are rendered alike, in either
layout, exactly if their entries in order are the same. A name may end in a digit, and an exponent
of one has no mark.
-/
namespace QuantityCalculus

open UnitExpr

theorem map_inj_of_mem {α β : Type} {f : α → β} {items others : List α}
    (hinj : ∀ v ∈ items, ∀ w ∈ others, f v = f w → v = w) (h : items.map f = others.map f) :
    items = others := by
  induction items generalizing others with
  | nil => exact (List.map_eq_nil_iff.mp h.symm).symm
  | cons v rest ih =>
    cases others with
    | nil => cases h
    | cons w others =>
      rw [List.map_cons, List.map_cons, List.cons.injEq] at h
      have hrest := ih (fun v hv w hw => hinj v (List.mem_cons_of_mem _ hv) w
        (List.mem_cons_of_mem _ hw)) h.2
      rw [hinj v List.mem_cons_self w List.mem_cons_self h.1, hrest]

def numeralChars : List Char := ['0', '1', '2', '3', '4', '5', '6', '7', '8', '9', '-']

theorem mem_numeralChars_of_isDigit {c : Char} (h : c.isDigit = true) : c ∈ numeralChars := by
  obtain ⟨hlow, hhigh⟩ := Char.isDigit_iff_toNat.mp h
  have hall : ∀ k, k ≤ '9'.toNat → '0'.toNat ≤ k → Char.ofNat k ∈ numeralChars := by decide
  have hc := hall c.toNat hhigh hlow
  rwa [Char.ofNat_toNat] at hc

theorem UnitExpr.Literal.written_ofInt (n : Int) : (Literal.ofInt n).Written :=
  ⟨Nat.toDigits_ne_nil, fun _ hc => Nat.isDigit_of_mem_toDigits (by decide) (by decide) hc⟩

theorem mem_numeralChars_of_mem_repr {n : Int} {c : Char} (h : c ∈ n.repr.toList) :
    c ∈ numeralChars := by
  have hdigits := (Literal.written_ofInt n).2
  rw [← Literal.chars_ofInt, Literal.chars] at h
  split at h
  · rcases List.mem_cons.mp h with rfl | h
    · decide
    · exact mem_numeralChars_of_isDigit (hdigits c h)
  · exact mem_numeralChars_of_isDigit (hdigits c h)

theorem repr_ne_nil (n : Int) : n.repr.toList ≠ [] := by
  rw [← Literal.chars_ofInt, Literal.chars]
  split
  · exact List.cons_ne_nil _ _
  · exact (Literal.written_ofInt n).1

/-- The sign and the digits determine the number. -/
theorem repr_toList_inj {n k : Int} (h : n.repr.toList = k.repr.toList) : n = k := by
  rw [← Literal.chars_ofInt, ← Literal.chars_ofInt] at h
  have hn := signOf_chars (Literal.written_ofInt n) []
  rw [h, signOf_chars (Literal.written_ofInt k), List.append_nil, List.append_nil] at hn
  have hliteral : Literal.ofInt k = Literal.ofInt n := by
    cases hk : Literal.ofInt k with
    | mk negative digits =>
      rw [hk] at hn
      cases hn
      rfl
  rw [← Literal.value_ofInt n, ← Literal.value_ofInt k, hliteral]

theorem map_raise_numeralChars :
    numeralChars.map Text.raise = ['⁰', '¹', '²', '³', '⁴', '⁵', '⁶', '⁷', '⁸', '⁹', '⁻'] :=
  rfl

theorem isNameChar_raise {c : Char} (hc : c ∈ numeralChars) : isNameChar (Text.raise c) = false := by
  have hhigh : ∀ d ∈ numeralChars.map Text.raise, 0x7E < d.toNat := by
    rw [map_raise_numeralChars]
    simp
  have hd := hhigh _ (List.mem_map_of_mem hc)
  exact Bool.eq_false_iff.mpr fun h => Nat.not_le.mpr hd (isVisible_of_isNameChar h).2

namespace Layout

variable {layout : Layout} {n k : Int} {c d : Char} {p q : String × Int}
  {product other : List (String × Int)}

def lead : Layout → List Char
  | plain => ['^']
  | pretty => []

def rise : Layout → Char → Char
  | plain => id
  | pretty => Text.raise

/-- What follows the symbol in a factor. -/
def mark (layout : Layout) (n : Int) : List Char :=
  if n = 1 then [] else layout.lead ++ n.repr.toList.map layout.rise

theorem toList_factor (layout : Layout) (p : String × Int) :
    (layout.factor p).toList = p.1.toList ++ layout.mark p.2 := by
  unfold factor mark
  split
  · rw [List.append_nil]
  · rw [String.toList_append]
    cases layout with
    | plain => simp [exponentMark, lead, rise]
    | pretty => simp [exponentMark, lead, rise]

theorem rise_inj (hc : c ∈ numeralChars) (hd : d ∈ numeralChars)
    (h : layout.rise c = layout.rise d) : c = d := by
  cases layout with
  | plain => exact h
  | pretty =>
    have hnodup : (numeralChars.map Text.raise).Nodup := by
      rw [map_raise_numeralChars]
      decide
    exact List.inj_on_of_nodup_map hnodup hc hd h

theorem mark_inj (h : layout.mark n = layout.mark k) : n = k := by
  have hne : ∀ i : Int, layout.lead ++ i.repr.toList.map layout.rise ≠ [] := fun i hnil =>
    repr_ne_nil i (List.map_eq_nil_iff.mp (List.append_eq_nil_iff.mp hnil).2)
  unfold mark at h
  split at h
  · rename_i hn
    split at h
    · rename_i hk
      rw [hn, hk]
    · exact absurd h.symm (hne k)
  · split at h
    · exact absurd h (hne n)
    · refine repr_toList_inj (map_inj_of_mem (fun c hc d hd => ?_) (List.append_cancel_left h))
      exact rise_inj (mem_numeralChars_of_mem_repr hc) (mem_numeralChars_of_mem_repr hd)

theorem stopsAt_mark (layout : Layout) (n : Int) : StopsAt isNameChar (layout.mark n) := by
  intro c hc
  unfold mark at hc
  split at hc
  · cases hc
  · cases layout with
    | plain =>
      cases hc
      decide
    | pretty =>
      obtain ⟨d, hd, rfl⟩ := List.mem_map.mp (List.mem_of_mem_head? hc)
      exact isNameChar_raise (mem_numeralChars_of_mem_repr hd)

theorem factor_inj (hp : isName p.1.toList = true) (hq : isName q.1.toList = true)
    (h : (layout.factor p).toList = (layout.factor q).toList) : p = q := by
  rw [toList_factor, toList_factor] at h
  have hname := congrArg (List.takeWhile isNameChar) h
  rw [takeWhile_run (isNameChar_of_isName hp) (stopsAt_mark layout p.2),
    takeWhile_run (isNameChar_of_isName hq) (stopsAt_mark layout q.2)] at hname
  rw [hname] at h
  exact Prod.ext (String.toList_inj.mp hname) (mark_inj (List.append_cancel_left h))

def separatorChar : Layout → Char
  | plain => '*'
  | pretty => '·'

theorem toList_join (layout : Layout) (product : List (String × Int)) :
    (layout.join (product.map layout.factor)).toList =
      [layout.separatorChar].intercalate (product.map fun p => (layout.factor p).toList) := by
  unfold join
  rw [String.toList_intercalate, List.map_map]
  cases layout <;> rfl

theorem separatorChar_notMem_factor (hp : isName p.1.toList = true) :
    layout.separatorChar ∉ (layout.factor p).toList := by
  have hname : isNameChar layout.separatorChar = false := by cases layout <;> decide
  have hlead : layout.separatorChar ∉ layout.lead := by cases layout <;> decide
  have hrise : layout.separatorChar ∉ numeralChars.map layout.rise := by cases layout <;> decide
  rw [toList_factor]
  intro hmem
  rcases List.mem_append.mp hmem with h | h
  · rw [isNameChar_of_isName hp _ h] at hname
    cases hname
  · unfold mark at h
    split at h
    · cases h
    · rcases List.mem_append.mp h with h | h
      · exact hlead h
      · exact hrise (List.map_subset _ (fun c => mem_numeralChars_of_mem_repr) h)

/-- What is joined can be split again, since no factor holds the separator. -/
theorem splitOn_join (layout : Layout) (hproduct : ∀ p ∈ product, isName p.1.toList = true)
    (hne : product ≠ []) :
    (layout.join (product.map layout.factor)).toList.splitOn layout.separatorChar =
      product.map fun p => (layout.factor p).toList := by
  rw [toList_join]
  refine List.splitOn_intercalate _ (fun cs hcs => ?_) (mt List.map_eq_nil_iff.mp hne)
  obtain ⟨p, hp, rfl⟩ := List.mem_map.mp hcs
  exact separatorChar_notMem_factor (hproduct p hp)

theorem join_ne_nil (layout : Layout) (hproduct : ∀ p ∈ product, isName p.1.toList = true)
    (hne : product ≠ []) :
    (layout.join (product.map layout.factor)).toList ≠ [] := by
  intro hnil
  have hsplit := splitOn_join layout hproduct hne
  rw [hnil, List.splitOn_nil, eq_comm, List.map_eq_singleton_iff] at hsplit
  obtain ⟨p, rfl, hfactor⟩ := hsplit
  rw [toList_factor, List.append_eq_nil_iff] at hfactor
  have hname := hproduct p List.mem_cons_self
  rw [hfactor.1] at hname
  cases hname

theorem join_inj (hproduct : ∀ p ∈ product, isName p.1.toList = true)
    (hother : ∀ p ∈ other, isName p.1.toList = true) :
    layout.join (product.map layout.factor) = layout.join (other.map layout.factor) ↔
      product = other := by
  refine ⟨fun h => ?_, fun h => h ▸ rfl⟩
  by_cases hp : product = []
  · by_contra hne
    refine join_ne_nil layout hother (fun ho => hne (hp.trans ho.symm)) ?_
    rw [← h, hp]
    rfl
  · by_cases ho : other = []
    · refine absurd ?_ (join_ne_nil layout hproduct hp)
      rw [h, ho]
      rfl
    · have hsplit := splitOn_join layout hproduct hp
      rw [h, splitOn_join layout hother ho] at hsplit
      refine map_inj_of_mem (fun p hp q hq => ?_) hsplit.symm
      exact factor_inj (hproduct p hp) (hother q hq)

end Layout

namespace DimensionMap

variable {maps others : List DimensionMap} {m k : DimensionMap} {layout : Layout}

theorem isName_of_mem_sorted (hnamed : ∀ m ∈ maps, m.Named) :
    ∀ p ∈ maps.flatMap sorted, isName p.1.toList = true := by
  intro p hp
  obtain ⟨m, hm, hp⟩ := List.mem_flatMap.mp hp
  exact hnamed m hm p.1 (List.mem_map_of_mem (m.sorted_perm.mem_iff.mp hp))

theorem renderAll_inj (hmaps : ∀ m ∈ maps, m.Named) (hothers : ∀ m ∈ others, m.Named) :
    renderAll layout maps = renderAll layout others ↔
      maps.flatMap sorted = others.flatMap sorted := by
  rw [renderAll_eq, renderAll_eq]
  exact Layout.join_inj (isName_of_mem_sorted hmaps) (isName_of_mem_sorted hothers)

theorem agrees_iff_sorted_eq : m.agrees k = true ↔ m.sorted = k.sorted := by
  refine ⟨sorted_eq_of_agrees, fun h => (agrees_iff_perm m k).mpr ?_⟩
  have hperm := m.sorted_perm.symm
  rw [h] at hperm
  exact hperm.trans k.sorted_perm

/-- Maps look alike in the pretty layout exactly if they do in the plain one, namely if their
entries in order are the same; and single maps look alike exactly if they agree. -/
theorem pretty_shows_what_plain_shows (hnamed : ∀ m ∈ maps ++ others, m.Named)
    (hprint : ∀ m ∈ maps ++ others, m.Printable) :
    (∀ layout, Unchecked.renderAll layout (maps.map toValue) = .ok (renderAll layout maps) ∧
        Unchecked.renderAll layout (others.map toValue) = .ok (renderAll layout others)) ∧
      (renderAll .pretty maps = renderAll .pretty others ↔
        renderAll .plain maps = renderAll .plain others) ∧
      (renderAll .plain maps = renderAll .plain others ↔
        maps.flatMap sorted = others.flatMap sorted) ∧
      ∀ m ∈ maps, ∀ k ∈ others, ∀ layout, m.render layout = k.render layout ↔ m.agrees k = true := by
  obtain ⟨hmaps, hothers⟩ := List.forall_mem_append.mp hnamed
  obtain ⟨hprint, hprint'⟩ := List.forall_mem_append.mp hprint
  have hinj : ∀ layout, renderAll layout maps = renderAll layout others ↔
      maps.flatMap sorted = others.flatMap sorted := fun _ => renderAll_inj hmaps hothers
  refine ⟨fun layout => ⟨Unchecked.renderAll_toValue layout hprint,
    Unchecked.renderAll_toValue layout hprint'⟩, (hinj .pretty).trans (hinj .plain).symm,
    hinj .plain, fun m hm k hk layout => ?_⟩
  rw [render, render, renderAll_inj (by simpa using hmaps m hm) (by simpa using hothers k hk),
    List.flatMap_singleton, List.flatMap_singleton, agrees_iff_sorted_eq]

theorem symbol_ending_in_digit_is_no_power :
    let whole : List DimensionMap := [.ofList [("s", -1), ("m2", 1)]]
    let parts : List DimensionMap := [.ofList [("m2", 1)], .ofList [("s", -1)]]
    let square : List DimensionMap := [.ofList [("m", 2), ("s", -1)]]
    (∀ m ∈ whole ++ parts, m.Named) ∧ (∀ m ∈ whole ++ parts, m.Printable) ∧
      (∀ m ∈ whole ++ square, m.Named) ∧ (∀ m ∈ whole ++ square, m.Printable) ∧
      renderAll .plain whole = "m2*s^-1" ∧ renderAll .plain square = "m^2*s^-1" ∧
      renderAll .pretty whole = renderAll .pretty parts ∧
      renderAll .pretty whole ≠ renderAll .pretty square := by
  intro whole parts square
  have hparts : (∀ m ∈ whole ++ parts, m.Named) ∧ ∀ m ∈ whole ++ parts, m.Printable := by
    decide +kernel
  have hsquare : (∀ m ∈ whole ++ square, m.Named) ∧ ∀ m ∈ whole ++ square, m.Printable := by
    decide +kernel
  have hwholeText : renderAll .plain whole = "m2*s^-1" := by cbv
  have hpartsText : renderAll .plain parts = "m2*s^-1" := by cbv
  have hsquareText : renderAll .plain square = "m^2*s^-1" := by cbv
  obtain ⟨-, halike, -⟩ := pretty_shows_what_plain_shows hparts.1 hparts.2
  obtain ⟨-, hapart, -⟩ := pretty_shows_what_plain_shows hsquare.1 hsquare.2
  refine ⟨hparts.1, hparts.2, hsquare.1, hsquare.2, hwholeText, hsquareText,
    halike.mpr (hwholeText.trans hpartsText.symm), mt hapart.mp ?_⟩
  rw [hwholeText, hsquareText]
  decide

end DimensionMap

end QuantityCalculus
