import QuantityCalculus.Dimension.Unchecked
import QuantityCalculus.Proofs.Dimension.Exponents
import QuantityCalculus.Proofs.Outcome

/-!
# Maps through their entries

Collecting powers whose symbols are new appends them as they are and leaves out those with
exponent zero, so a list that is already canonical is collected into the map with just these
entries. Hence scaling a map by an unchecked integer never fails and is the scaling of maps.
-/
namespace QuantityCalculus

theorem bumpEntry_of_notMem {s : String} {k : Int} {entries : List (String × Int)}
    (hs : s ∉ entries.map Prod.fst) :
    bumpEntry s k entries = entries ++ if k = 0 then [] else [(s, k)] := by
  induction entries with
  | nil => rfl
  | cons e rest ih =>
    simp only [List.map_cons, List.mem_cons, not_or] at hs
    rw [bumpEntry, if_neg (Ne.symm hs.1), ih hs.2, List.cons_append]

theorem keys_bumpEntry_of_mem {s : String} {k : Int} {entries : List (String × Int)}
    (hnodup : (entries.map Prod.fst).Nodup) (hs : s ∈ entries.map Prod.fst) :
    (bumpEntry s k entries).map Prod.fst =
      (entries.map Prod.fst).filter fun t => t ≠ s ∨ exponentIn s entries + k ≠ 0 := by
  induction entries with
  | nil => cases hs
  | cons e rest ih =>
    rw [List.map_cons, List.nodup_cons] at hnodup
    rw [bumpEntry, exponentIn, List.map_cons, List.filter_cons]
    by_cases hes : e.1 = s
    · have hkept : (rest.map Prod.fst).filter (fun t => t ≠ s ∨ e.2 + k ≠ 0) = rest.map Prod.fst :=
        List.filter_eq_self.mpr fun t ht =>
          decide_eq_true (.inl fun hts => hnodup.1 (hes.trans hts.symm ▸ ht))
      rw [if_pos hes, if_pos hes, hkept]
      by_cases hsum : e.2 + k = 0
      · simp [hes, hsum]
      · simp [hsum]
    · have hrest := ih hnodup.2 ((List.mem_cons.mp hs).resolve_left (Ne.symm hes))
      rw [if_neg hes, if_neg hes, List.map_cons, hrest]
      simp [hes]

namespace DimensionMap

theorem entries_bumpAll_of_nodup (m : DimensionMap) {powers : List (String × Int)}
    (hnodup : ((m.entries ++ powers).map Prod.fst).Nodup) :
    (m.bumpAll powers).entries = m.entries ++ powers.filter fun p => p.2 ≠ 0 := by
  induction powers generalizing m with
  | nil => simp
  | cons p rest ih =>
    have hnew : p.1 ∉ m.entries.map Prod.fst := by
      simp only [List.map_append, List.map_cons, List.nodup_append] at hnodup
      exact fun hmem => hnodup.2.2 p.1 hmem p.1 List.mem_cons_self rfl
    have hbump : (m.bump p.1 p.2).entries = m.entries ++ if p.2 = 0 then [] else [p] :=
      bumpEntry_of_notMem hnew
    have hsub : ((m.bump p.1 p.2).entries ++ rest).Sublist (m.entries ++ p :: rest) := by
      rw [hbump, List.append_assoc]
      refine (List.Sublist.refl m.entries).append ?_
      split
      · exact List.sublist_cons_self p rest
      · exact List.Sublist.refl _
    rw [bumpAll_cons, ih _ (hnodup.sublist (hsub.map Prod.fst)), hbump, List.append_assoc]
    by_cases hzero : p.2 = 0
    · simp [hzero]
    · simp [hzero]

/-- Of powers of different symbols, those with an exponent are collected as they are. -/
theorem entries_ofList {powers : List (String × Int)} (h : (powers.map Prod.fst).Nodup) :
    (ofList powers).entries = powers.filter fun p => p.2 ≠ 0 :=
  entries_bumpAll_of_nodup empty h

theorem ofList_entries (m : DimensionMap) : ofList m.entries = m := by
  apply DimensionMap.ext
  rw [entries_ofList m.nodup, List.filter_eq_self]
  intro e he
  exact decide_eq_true (m.nonzero e he)

variable (m : DimensionMap) (n : Int)

theorem scaledExponent_integer (symbol : Value) (e : Int) :
    scaledExponent symbol (.integer e) (.integer n) = .ok (e * n) := rfl

theorem scaleBy_integer (hn : n ≠ 0) : m.scaleBy (.integer n) = .ok (m.scale n) := by
  have hscaled : (m.entries.mapM fun e => do
      .ok (e.1, ← scaledExponent (.text e.1) (.integer e.2) (.integer n)) :
      Except Error (List (String × Int))) = .ok (m.scale n).entries := by
    rw [scale, dif_neg hn]
    exact mapM_eq_ok_map fun e _ => by rw [scaledExponent_integer]; rfl
  unfold scaleBy
  rw [hscaled]
  exact congrArg Except.ok (m.scale n).ofList_entries

end DimensionMap

theorem Dimensions.powBy_integer (d : Dimensions) (n : Int) :
    d.powBy (.integer n) = .ok (d ^ n) := by
  have hzero : (Value.integer n).equals (.integer 0) = .ok (decide (n = 0)) := by
    rw [Value.equals, Number.compareEqual_integer]
  unfold Dimensions.powBy
  rw [hzero]
  by_cases hn : n = 0
  · subst hn
    rfl
  · rw [d.physical.scaleBy_integer n hn, d.algebraic.scaleBy_integer n hn,
      d.symbolic.scaleBy_integer n hn, decide_eq_false hn]
    rfl

end QuantityCalculus
