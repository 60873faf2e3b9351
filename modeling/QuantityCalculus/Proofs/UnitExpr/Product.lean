import QuantityCalculus.Dimension.Text
import QuantityCalculus.Proofs.UnitExpr.Meaning

/-!
# Reading plain renderings

A plain rendering is a sequence of tokens again: factors with multiplication signs
between them, which keep the names apart. An integer is written with the digits that
its literal has, nothing in the text is blank, and so the factors are read back one by
one, with the exponents that they were written with.
-/
namespace QuantityCalculus

namespace UnitExpr

/-- The ASCII characters from the exclamation mark to the tilde. -/
def IsVisible (c : Char) : Prop := 0x21 ≤ c.toNat ∧ c.toNat ≤ 0x7E

instance (c : Char) : Decidable (IsVisible c) := inferInstanceAs (Decidable (_ ∧ _))

theorem isBlank_eq_false_of_isVisible {c : Char} (h : IsVisible c) : Text.isBlank c = false := by
  obtain ⟨hlow, hhigh⟩ := h
  simp [Text.isBlank, Text.blankRanges]
  omega

theorem squeeze_eq_self {cs : List Char} (h : ∀ c ∈ cs, IsVisible c) : Text.squeeze cs = cs := by
  apply List.filter_eq_self.mpr
  intro c hc
  rw [isBlank_eq_false_of_isVisible (h c hc)]
  rfl

theorem isVisible_of_isNameChar {c : Char} (h : isNameChar c = true) : IsVisible c := by
  have hval : '0'.val ≤ c.val ∧ c.val ≤ 'z'.val := by
    simp only [isNameChar, Char.isAlphanum, Char.isAlpha, Char.isUpper, Char.isLower,
      Char.isDigit, Bool.or_eq_true, Bool.and_eq_true, decide_eq_true_eq, beq_iff_eq] at h
    rcases h with h | rfl
    · grind
    · decide
  have hlow : 48 ≤ c.toNat := UInt32.le_iff_toNat_le.mp hval.1
  have hhigh : c.toNat ≤ 122 := UInt32.le_iff_toNat_le.mp hval.2
  constructor <;> omega

theorem isVisible_of_mem_token {t : Token} (h : t.Valid) : ∀ c ∈ t.chars, IsVisible c := by
  intro c hc
  cases t with
  | multiply =>
    cases List.mem_singleton.mp hc
    decide
  | divide =>
    cases List.mem_singleton.mp hc
    decide
  | factor name exponent =>
    exact forall_mem_factor (fun _ => isVisible_of_isNameChar) (by decide) (by decide) h c hc

theorem Spells.squeeze {tokens : List Token} {cs : List Char} (h : Spells tokens cs) :
    Text.squeeze cs = cs := by
  apply squeeze_eq_self
  intro c hc
  rw [← h.chars] at hc
  obtain ⟨t, ht, hc⟩ := List.mem_flatMap.mp hc
  exact isVisible_of_mem_token (h.valid t ht) c hc

def Literal.ofInt (n : Int) : Literal := ⟨decide (n < 0), Nat.toDigits 10 n.natAbs⟩

theorem Literal.chars_ofInt (n : Int) : (ofInt n).chars = n.repr.toList := by
  cases n with
  | ofNat k => simp [ofInt, chars, Int.repr]
  | negSucc k => simp [ofInt, chars, Int.repr, Int.negSucc_lt_zero]

theorem Literal.value_ofInt (n : Int) : (ofInt n).value = n := by
  unfold ofInt value
  rw [Nat.ofDigitChars_toDigits (by decide) (by decide)]
  simp only [decide_eq_true_eq]
  split <;> omega

theorem Literal.valid_ofInt {n : Int} (h : Text.HasNumeral n) : (ofInt n).Valid := by
  refine ⟨Nat.toDigits_ne_nil, ?_, ?_⟩
  · apply List.all_eq_true.mpr
    intro c hc
    exact Nat.isDigit_of_mem_toDigits (by decide) (by decide) hc
  · exact (Nat.length_toDigits_le_iff (by decide) (by decide)).mpr h

/-- The token that a factor of a plain rendering is. -/
def Token.ofPower (p : String × Int) : Token :=
  .factor p.1.toList (if p.2 = 1 then none else some (.ofInt p.2))

structure Writable (p : String × Int) : Prop where
  name : isName p.1.toList = true
  numeral : Text.HasNumeral p.2

theorem Token.chars_ofPower (p : String × Int) :
    (ofPower p).chars = (Layout.plain.factor p).toList := by
  unfold ofPower Layout.factor
  split
  · rfl
  · simp only [chars, Layout.exponentMark, String.toList_append, Literal.chars_ofInt]
    rfl

theorem Token.valid_ofPower {p : String × Int} (h : Writable p) : (ofPower p).Valid := by
  refine factor_valid h.name ?_
  intro l hl
  split at hl
  · cases hl
  · cases hl
    exact Literal.valid_ofInt h.numeral

theorem exponentValue_ofPower (p : String × Int) :
    exponentValue (if p.2 = 1 then none else some (Literal.ofInt p.2)) = p.2 := by
  split
  · rename_i hone
    exact hone.symm
  · exact Literal.value_ofInt p.2

def productTokens : List (String × Int) → List Token
  | [] => []
  | [p] => [.ofPower p]
  | p :: q :: rest => .ofPower p :: .multiply :: productTokens (q :: rest)

theorem powers_productTokens (product : List (String × Int)) :
    powers false (productTokens product) = product := by
  fun_induction productTokens product with
  | case1 => rfl
  | case2 p =>
    simp [Token.ofPower, powers, exponentValue_ofPower]
  | case3 p q rest ih =>
    simp [Token.ofPower, powers, exponentValue_ofPower, ih]

theorem separated_productTokens (product : List (String × Int)) :
    Separated (productTokens product) := by
  fun_induction productTokens product with
  | case1 => exact .nil
  | case2 p => exact .singleton _
  | case3 p q rest ih =>
    refine separated_cons ?_ (separated_cons (fun _ _ => trivial) ih)
    intro u hu
    cases hu
    unfold Token.ofPower
    split <;> trivial

theorem chars_productTokens (product : List (String × Int)) :
    (productTokens product).flatMap Token.chars =
      (Layout.plain.join (product.map Layout.plain.factor)).toList := by
  unfold Layout.join
  fun_induction productTokens product with
  | case1 => rfl
  | case2 p => simp [Token.chars_ofPower]
  | case3 p q rest ih =>
    have hjoin : Layout.plain.separator.intercalate
          (Layout.plain.factor p :: (q :: rest).map Layout.plain.factor) =
        Layout.plain.factor p ++ "*" ++
          Layout.plain.separator.intercalate ((q :: rest).map Layout.plain.factor) :=
      String.intercalate_cons_cons
    rw [List.map_cons, hjoin, String.toList_append, String.toList_append, ← ih,
      List.flatMap_cons, List.flatMap_cons, Token.chars_ofPower, List.append_assoc]
    rfl

theorem spells_productTokens {product : List (String × Int)} (h : ∀ p ∈ product, Writable p) :
    Spells (productTokens product)
      (Layout.plain.join (product.map Layout.plain.factor)).toList := by
  refine ⟨?_, chars_productTokens product⟩
  fun_induction productTokens product with
  | case1 => simp
  | case2 p =>
    intro t ht
    cases List.mem_singleton.mp ht
    exact Token.valid_ofPower (h p List.mem_cons_self)
  | case3 p q rest ih =>
    intro t ht
    rcases List.mem_cons.mp ht with rfl | ht
    · exact Token.valid_ofPower (h p List.mem_cons_self)
    · rcases List.mem_cons.mp ht with rfl | ht
      · trivial
      · exact ih (fun p hp => h p (List.mem_cons_of_mem _ hp)) t ht

/-- A product that is written factor by factor is read as the product of these factors. -/
theorem readValue_join {product : List (String × Int)} (h : ∀ p ∈ product, Writable p) :
    readValue (.text (Layout.plain.join (product.map Layout.plain.factor))) =
      .ok (.ofList product) := by
  have hspells := spells_productTokens h
  have hmatch := longestMatch_of_separated hspells (separated_productTokens product)
  rw [← hspells.squeeze] at hmatch
  refine readValue_eq_ok_iff.mpr ⟨productTokens product, hmatch, ?_⟩
  rw [meaning, powers_productTokens]

end UnitExpr

end QuantityCalculus
