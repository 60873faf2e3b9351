import Mathlib.Data.Nat.Find
import Mathlib.Order.Bounds.Basic
import QuantityCalculus.Proofs.Dimension.Normalized
import QuantityCalculus.Proofs.UnitExpr.Meaning
import QuantityCalculus.Quantity.Basic

/-!
# The order of symbols

Powers that are multiplied one after the other leave their symbols in an order. A symbol goes to
the end each time its exponent leaves zero, stays in its place while the exponent is nonzero, and
is gone when the exponent returns to zero. So the symbols of a product come in the order of the
places at which their exponents last left zero, however often they vanished before. Reading a unit
expression gives this order, and nothing that normalizes the result changes it.
-/
namespace QuantityCalculus

/-- The power at place `j` takes the exponent of a symbol away from zero. -/
def LeavesZero (powers : List (String × Int)) (s : String) (j : Nat) : Prop :=
  exponentSum s (powers.take j) = 0 ∧ exponentSum s (powers.take (j + 1)) ≠ 0

instance (powers : List (String × Int)) (s : String) : DecidablePred (LeavesZero powers s) :=
  fun _ => inferInstanceAs (Decidable (_ ∧ _))

/-- The last place at which the exponent of a symbol leaves zero. -/
def birth (powers : List (String × Int)) (s : String) : Nat :=
  Nat.findGreatest (LeavesZero powers s) powers.length

section Births

variable {powers : List (String × Int)} {p : String × Int} {s : String} {j : Nat}

theorem LeavesZero.lt_length (h : LeavesZero powers s j) : j < powers.length := by
  by_contra hge
  obtain ⟨hbefore, hafter⟩ := h
  rw [List.take_of_length_le (by omega)] at hbefore hafter
  exact hafter hbefore

theorem leavesZero_concat_iff :
    LeavesZero (powers ++ [p]) s j ↔ LeavesZero powers s j ∨
      j = powers.length ∧ exponentSum s powers = 0 ∧ exponentSum s (powers ++ [p]) ≠ 0 := by
  rcases Nat.lt_trichotomy j powers.length with hlt | rfl | hgt
  · simp [LeavesZero, List.take_append_of_le_length (Nat.le_of_lt hlt),
      List.take_append_of_le_length hlt, Nat.ne_of_lt hlt]
  · have hold : ¬LeavesZero powers s powers.length := fun h => Nat.lt_irrefl _ h.lt_length
    rw [or_iff_right hold, LeavesZero, List.take_left, List.take_of_length_le (by simp)]
    simp
  · have hold : ¬LeavesZero powers s j := fun h => by have := h.lt_length; omega
    have hnew : ¬LeavesZero (powers ++ [p]) s j := fun h => by
      have := h.lt_length
      rw [List.length_append, List.length_singleton] at this
      omega
    simp [hold, hnew, Nat.ne_of_gt hgt]

theorem exists_leavesZero (h : exponentSum s powers ≠ 0) : ∃ j, LeavesZero powers s j := by
  induction powers using List.reverseRecOn with
  | nil => exact absurd rfl h
  | append_singleton powers p ih =>
    by_cases hzero : exponentSum s powers = 0
    · exact ⟨powers.length, leavesZero_concat_iff.mpr (.inr ⟨rfl, hzero, h⟩)⟩
    · obtain ⟨j, hj⟩ := ih hzero
      exact ⟨j, leavesZero_concat_iff.mpr (.inl hj)⟩

theorem isGreatest_birth (h : ∃ j, LeavesZero powers s j) :
    IsGreatest {j | LeavesZero powers s j} (birth powers s) := by
  obtain ⟨j, hj⟩ := h
  refine ⟨Nat.findGreatest_spec (Nat.le_of_lt hj.lt_length) hj, fun i hi => ?_⟩
  exact Nat.le_findGreatest (Nat.le_of_lt hi.lt_length) hi

theorem birth_lt_length (h : exponentSum s powers ≠ 0) : birth powers s < powers.length :=
  LeavesZero.lt_length (isGreatest_birth (exists_leavesZero h)).1

theorem birth_concat_of_ne_zero (h : exponentSum s powers ≠ 0) :
    birth (powers ++ [p]) s = birth powers s := by
  have hsame : ∀ j, LeavesZero (powers ++ [p]) s j ↔ LeavesZero powers s j := fun j => by
    simp [leavesZero_concat_iff, h]
  have hexists := exists_leavesZero h
  have hnew := isGreatest_birth (hexists.imp fun j => (hsame j).mpr)
  simp only [hsame] at hnew
  exact hnew.unique (isGreatest_birth hexists)

theorem birth_concat_of_zero (h : exponentSum s powers = 0)
    (hnew : exponentSum s (powers ++ [p]) ≠ 0) : birth (powers ++ [p]) s = powers.length := by
  have hleaves := leavesZero_concat_iff.mpr (.inr ⟨rfl, h, hnew⟩)
  refine (isGreatest_birth ⟨_, hleaves⟩).unique ⟨hleaves, fun j hj => ?_⟩
  rcases leavesZero_concat_iff.mp hj with hold | ⟨rfl, -⟩
  · exact Nat.le_of_lt hold.lt_length
  · exact Nat.le_refl _

end Births

namespace DimensionMap

variable (m : DimensionMap)

/-- Another power takes the place of none, or puts a new symbol at the end. -/
theorem symbols_bump (s : String) (k : Int) :
    (m.bump s k).symbols.Sublist m.symbols ∨
      s ∉ m.symbols ∧ (m.bump s k).symbols = m.symbols ++ [s] := by
  by_cases hs : s ∈ m.symbols
  · refine .inl ?_
    rw [symbols, bump, keys_bumpEntry_of_mem m.nodup hs]
    exact List.filter_sublist
  · have hbump : (m.bump s k).symbols =
        (m.entries ++ if k = 0 then [] else [(s, k)]).map Prod.fst :=
      congrArg (List.map Prod.fst) (bumpEntry_of_notMem hs)
    rw [hbump]
    split
    · exact .inl (by rw [List.append_nil]; exact List.Sublist.refl _)
    · exact .inr ⟨hs, List.map_append⟩

theorem ofList_concat (powers : List (String × Int)) (p : String × Int) :
    ofList (powers ++ [p]) = (ofList powers).bump p.1 p.2 :=
  bumpAll_append empty powers [p]

/-- Symbols stand in the order of the places at which their exponents last left zero. -/
theorem symbols_ofList_pairwise (powers : List (String × Int)) :
    (ofList powers).symbols.Pairwise fun s t => birth powers s < birth powers t := by
  induction powers using List.reverseRecOn with
  | nil => exact .nil
  | append_singleton powers p ih =>
    have hmem : ∀ s ∈ (ofList powers).symbols, exponentSum s powers ≠ 0 := fun s hs => by
      rwa [mem_symbols_iff, exponent_ofList] at hs
    -- the symbols that were there keep their places
    have hold : (ofList powers).symbols.Pairwise fun s t =>
        birth (powers ++ [p]) s < birth (powers ++ [p]) t :=
      ih.imp_of_mem fun {s t} hs ht hlt => by
        rwa [birth_concat_of_ne_zero (hmem s hs), birth_concat_of_ne_zero (hmem t ht)]
    rw [ofList_concat]
    rcases (ofList powers).symbols_bump p.1 p.2 with hsub | ⟨hnew, hsymbols⟩
    · exact hold.sublist hsub
    · have hzero : exponentSum p.1 powers = 0 := by
        rwa [mem_symbols_iff, exponent_ofList, not_not] at hnew
      have hleaves : exponentSum p.1 (powers ++ [p]) ≠ 0 := by
        rw [← exponent_ofList, ← mem_symbols_iff, ofList_concat, hsymbols]
        exact List.mem_append_right _ (List.mem_singleton_self p.1)
      rw [hsymbols]
      refine List.pairwise_append.mpr ⟨hold, List.pairwise_singleton _ _, fun s hs t ht => ?_⟩
      rw [List.mem_singleton.mp ht, birth_concat_of_zero hzero hleaves,
        birth_concat_of_ne_zero (hmem s hs)]
      exact birth_lt_length (hmem s hs)

end DimensionMap

theorem Dimensions.ofValues_toValue (d : Dimensions) :
    ofValues d.physical.toValue d.algebraic.toValue d.symbolic.toValue = .ok d := by
  unfold ofValues
  rw [Unchecked.normalize_toValue, Unchecked.normalize_toValue, Unchecked.normalize_toValue]
  rfl

namespace UnitExpr

/-- What a text is read as has the symbols whose powers do not add up to zero, each of them once,
in the order of the places at which their sums last left zero. It stays as it is when it is
normalized, and when a quantity is built from it. -/
theorem symbols_in_order_of_birth (text : String) (m : DimensionMap)
    (h : readValue (.text text) = .ok m) :
    (∃ tokens, LongestMatch tokens (Text.squeeze text.toList) ∧
      (∀ s, s ∈ m.symbols ↔ exponentSum s (powers false tokens) ≠ 0) ∧
      m.symbols.Nodup ∧
      (∀ s ∈ m.symbols, m.exponent s = exponentSum s (powers false tokens) ∧
        IsGreatest {j | LeavesZero (powers false tokens) s j} (birth (powers false tokens) s)) ∧
      m.symbols.Pairwise fun s t =>
        birth (powers false tokens) s < birth (powers false tokens) t) ∧
    DimensionMap.normalize m.toValue = .ok m ∧
    Unchecked.normalized m.toValue = .ok m.toValue ∧
    ∀ v ns, Quantity.build v (Dimensions.single ns m).physical.toValue
      (Dimensions.single ns m).algebraic.toValue (Dimensions.single ns m).symbolic.toValue =
        .ok ⟨v, .single ns m⟩ := by
  refine ⟨?_, Unchecked.normalize_toValue m, Unchecked.normalized_toValue m, fun v ns => ?_⟩
  · obtain ⟨tokens, htokens, rfl⟩ := readValue_eq_ok_iff.mp h
    have hmem : ∀ s, s ∈ (meaning tokens).symbols ↔ exponentSum s (powers false tokens) ≠ 0 :=
      fun s => by rw [DimensionMap.mem_symbols_iff, meaning, DimensionMap.exponent_ofList]
    refine ⟨tokens, htokens, hmem, (meaning tokens).nodup, fun s hs => ⟨?_, ?_⟩, ?_⟩
    · exact DimensionMap.exponent_ofList s _
    · exact isGreatest_birth (exists_leavesZero ((hmem s).mp hs))
    · exact DimensionMap.symbols_ofList_pairwise _
  · unfold Quantity.build
    rw [Dimensions.ofValues_toValue]
    rfl

theorem returning_symbol_last :
    let m := DimensionMap.ofList [("a", 1), ("b", 1), ("a", -1), ("a", 2)]
    readValue (.text "a*b/a*a^2") = .ok m ∧ m.symbols = ["b", "a"] ∧
      (∃ tokens, LongestMatch tokens "a*b/a*a^2".toList ∧
        birth (powers false tokens) "b" < birth (powers false tokens) "a") ∧
      DimensionMap.normalize m.toValue = .ok m := by
  intro m
  have hread : readValue (.text "a*b/a*a^2") = .ok m := by
    cbv
  have hsymbols : m.symbols = ["b", "a"] := by decide
  obtain ⟨⟨tokens, htokens, -, -, -, hordered⟩, hnormal, -, -⟩ :=
    symbols_in_order_of_birth _ m hread
  rw [hsymbols] at hordered
  exact ⟨hread, hsymbols, ⟨tokens, htokens, List.rel_of_pairwise_cons hordered List.mem_cons_self⟩,
    hnormal⟩

end UnitExpr

end QuantityCalculus
