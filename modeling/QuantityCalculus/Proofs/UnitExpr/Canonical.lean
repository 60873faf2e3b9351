import QuantityCalculus.Proofs.Dimension.Unchecked
import QuantityCalculus.Proofs.UnitExpr.RoundTrip

/-!
# Canonical texts

Printing the units that a text denotes gives the same text for all texts of the same units. It
is read as these units again and printed as it stands. A text is limited in the digits of each
of its exponents, but the exponents of one symbol add up, and a sum may be too long to be
printed: such units are read from a text and have no canonical one.
-/
namespace QuantityCalculus

namespace DimensionMap

variable {m : DimensionMap}

theorem Named.bump (hm : m.Named) {s : String} (hs : UnitExpr.isName s.toList = true) (k : Int) :
    (m.bump s k).Named := by
  intro t ht
  rcases mem_keys_bumpEntry ht with rfl | ht
  · exact hs
  · exact hm t ht

theorem Named.bumpAll (hm : m.Named) {powers : List (String × Int)}
    (h : ∀ p ∈ powers, UnitExpr.isName p.1.toList = true) : (m.bumpAll powers).Named := by
  induction powers generalizing m with
  | nil => exact hm
  | cons p rest ih =>
    exact ih (hm.bump (h p List.mem_cons_self) p.2) fun q hq => h q (List.mem_cons_of_mem p hq)

theorem named_ofList {powers : List (String × Int)}
    (h : ∀ p ∈ powers, UnitExpr.isName p.1.toList = true) : (ofList powers).Named :=
  Named.bumpAll (fun _ hs => by cases hs) h

end DimensionMap

namespace UnitExpr

variable {s t : String} {m n : DimensionMap}

theorem isName_of_mem_powers {tokens : List Token} (h : ∀ t ∈ tokens, t.Valid) {dividing : Bool} :
    ∀ p ∈ powers dividing tokens, isName p.1.toList = true := by
  induction tokens generalizing dividing with
  | nil => simp [powers]
  | cons t rest ih =>
    have hrest := fun u hu => h u (List.mem_cons_of_mem t hu)
    cases t with
    | multiply => exact ih hrest
    | divide => exact ih hrest
    | factor name exponent =>
      refine List.forall_mem_cons.mpr ⟨?_, ih hrest⟩
      rw [String.toList_ofList]
      exact (valid_factor (h _ List.mem_cons_self)).1

theorem named_of_readValue (h : readValue (.text s) = .ok m) : m.Named := by
  obtain ⟨tokens, htokens, rfl⟩ := readValue_eq_ok_iff.mp h
  exact DimensionMap.named_ofList (isName_of_mem_powers htokens.spells.valid)

/-- The plain text of the units that a text denotes. -/
def canonicalText (s : String) : Except Error String := do
  let m ← readValue (.text s)
  Quantity.unitsText .plain (← Dimensions.ofValues m.toValue (.map []) (.map []))

theorem canonicalText_eq (h : readValue (.text s) = .ok m) :
    canonicalText s = if m.Printable then .ok (m.render .plain) else .error .numeralTooLong := by
  have hdims : Dimensions.ofValues m.toValue (.map []) (.map []) = .ok (.single .physical m) := by
    unfold Dimensions.ofValues
    rw [Unchecked.normalize_toValue]
    rfl
  unfold canonicalText
  rw [h]
  change (Dimensions.ofValues _ _ _ >>= Quantity.unitsText .plain) = _
  rw [hdims]
  change Quantity.unitsText .plain _ = _
  simp only [Quantity.unitsText, Dimensions.printable_single, Dimensions.render_single]

theorem canonicalText_of_printable (h : readValue (.text s) = .ok m) (hm : m.Printable) :
    canonicalText s = .ok (m.render .plain) := by
  rw [canonicalText_eq h, if_pos hm]

/-- Texts of the same units are printed alike, or none of them is. -/
theorem canonicalText_eq_of_agrees (hs : readValue (.text s) = .ok m)
    (ht : readValue (.text t) = .ok n) (h : m.agrees n = true) :
    canonicalText s = canonicalText t := by
  have hprint : m.Printable ↔ n.Printable :=
    ⟨fun hm => hm.of_agrees h, fun hn => hn.of_agrees (DimensionMap.agrees_symm h)⟩
  rw [canonicalText_eq hs, canonicalText_eq ht, DimensionMap.render_eq_of_agrees h]
  simp only [hprint]

theorem readValue_canonicalText {c : String} (h : readValue (.text s) = .ok m)
    (hc : canonicalText s = .ok c) :
    Yields (readValue (.text c)) fun back => back.agrees m = true := by
  rw [canonicalText_eq h] at hc
  split at hc
  · rename_i hm
    cases hc
    exact readValue_render (named_of_readValue h) hm
  · cases hc

/-- Whatever is read has a canonical text if no exponent of it is too long to be printed. This
text is read as the same units and is its own canonical text, and it belongs to all texts of
the same units and to no others. -/
theorem canonical_texts (s : String) (m : DimensionMap) (h : readValue (.text s) = .ok m) :
    (m.Printable → ∃ c, canonicalText s = .ok c ∧
      (∃ back, readValue (.text c) = .ok back ∧ back.agrees m = true) ∧
      canonicalText c = .ok c) ∧
    (¬m.Printable → canonicalText s = .error .numeralTooLong) ∧
    ∀ t n, readValue (.text t) = .ok n →
      (m.agrees n = true → canonicalText s = canonicalText t) ∧
      ∀ c, canonicalText s = .ok c → canonicalText t = .ok c → m.agrees n = true := by
  refine ⟨fun hm => ?_, fun hm => ?_, fun t n ht => ⟨canonicalText_eq_of_agrees h ht, ?_⟩⟩
  · have hc := canonicalText_of_printable h hm
    obtain ⟨back, hback, hagrees⟩ := readValue_canonicalText h hc
    refine ⟨m.render .plain, hc, ⟨back, hback, hagrees⟩, ?_⟩
    rw [canonicalText_eq_of_agrees hback h hagrees, hc]
  · rw [canonicalText_eq h, if_neg hm]
  · intro c hs hc
    obtain ⟨back, hback, hm⟩ := readValue_canonicalText h hs
    obtain ⟨back', hback', hn⟩ := readValue_canonicalText ht hc
    cases hback.symm.trans hback'
    exact DimensionMap.agrees_of_exponent (DimensionMap.agrees_symm hm)
      ((DimensionMap.agrees_iff_exponent back n).mp hn)

theorem canonical_acceleration :
    let m := DimensionMap.ofList [("s", -2), ("m", 1)]
    readValue (.text "s^-2*m") = .ok m ∧ m.Printable ∧
      canonicalText "s^-2*m" = .ok "m*s^-2" ∧ canonicalText "m*s^-2" = .ok "m*s^-2" := by
  intro m
  have hwritable : ∀ p ∈ [("s", (-2 : Int)), ("m", 1)], Writable p := by
    refine List.forall_mem_cons.mpr ⟨⟨by decide, by decide +kernel⟩, ?_⟩
    exact List.forall_mem_singleton.mpr ⟨by decide, by decide +kernel⟩
  have hread : readValue (.text "s^-2*m") = .ok m := readValue_join hwritable
  have hprint : m.Printable := by decide +kernel
  have htext : canonicalText "s^-2*m" = .ok "m*s^-2" := by
    rw [canonicalText_of_printable hread hprint]
    cbv
  obtain ⟨c, hc, -, hfixed⟩ := (canonical_texts _ m hread).1 hprint
  cases htext.symm.trans hc
  exact ⟨hread, hprint, htext, hfixed⟩

theorem readValue_power_times_metre {k : Int} (hk : Text.HasNumeral k) (hone : k ≠ 1) :
    readValue (.text ("m^" ++ k.repr ++ "*m")) = .ok (.ofList [("m", k), ("m", 1)]) := by
  have hname : isName "m".toList = true := by decide
  have hwritable : ∀ p ∈ [("m", k), ("m", 1)], Writable p := by
    refine List.forall_mem_cons.mpr ⟨⟨hname, hk⟩, ?_⟩
    exact List.forall_mem_singleton.mpr ⟨hname, by decide +kernel⟩
  have htext : Layout.plain.join ([("m", k), ("m", 1)].map Layout.plain.factor) =
      "m" ++ ("^" ++ k.repr) ++ "*" ++ "m" := by
    simp [Layout.join, Layout.factor, Layout.separator, Layout.exponentMark, hone,
      String.intercalate_cons_cons]
  rw [← readValue_join hwritable, htext]
  simp only [String.append_assoc]
  rfl

/-- Exponents that are short enough to be read, one of them as long as can be, add up to one
that is too long to be printed. -/
theorem sum_without_canonicalText :
    let text := "m^" ++ (10 ^ Text.digitLimit - 1 : Int).repr ++ "*m"
    (∃ m, readValue (.text text) = .ok m ∧ m.exponent "m" = 10 ^ Text.digitLimit) ∧
      canonicalText text = .error .numeralTooLong := by
  intro text
  have hone : (10 ^ Text.digitLimit - 1 : Int) ≠ 1 := by
    intro h
    have htwo : (10 ^ Text.digitLimit : Int) = 2 := by omega
    exact Text.not_hasNumeral_ten_pow (htwo ▸ (by decide +kernel : Text.HasNumeral 2))
  have hread := readValue_power_times_metre Text.hasNumeral_ten_pow_sub_one hone
  have hexponent : (DimensionMap.ofList
      [("m", (10 ^ Text.digitLimit - 1 : Int)), ("m", 1)]).exponent "m" = 10 ^ Text.digitLimit := by
    rw [DimensionMap.exponent_ofList, exponentSum_cons, exponentSum_cons, if_pos rfl, if_pos rfl]
    exact Int.sub_add_cancel _ 1
  refine ⟨⟨_, hread, hexponent⟩, ?_⟩
  rw [canonicalText_eq hread, if_neg]
  intro hprint
  exact Text.not_hasNumeral_ten_pow
    (hexponent ▸ (DimensionMap.printable_iff_exponent _).mp hprint "m")

end UnitExpr

end QuantityCalculus
