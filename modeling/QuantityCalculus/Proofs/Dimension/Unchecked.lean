import QuantityCalculus.Proofs.Dimension.Entries

/-!
# Canonical maps as unchecked ones

The operations on unchecked maps compute entry by entry with whatever stands there. On canonical
maps they never fail and are the operations on exponent maps: each step writes, moves and drops
the same entries, so the results agree in their order too.
-/
namespace QuantityCalculus

def toEntry (e : String × Int) : Value × Value := (.text e.1, .integer e.2)

@[simp] theorem toEntry_fst (e : String × Int) : (toEntry e).1 = .text e.1 := rfl

@[simp] theorem toEntry_snd (e : String × Int) : (toEntry e).2 = .integer e.2 := rfl

@[simp] theorem Value.isSameKey_text (s t : String) :
    (Value.text s).isSameKey (.text t) = (s == t) := rfl

namespace Unchecked

variable {s : String} {k : Int} {entries : List (String × Int)}

/-- A symbol stands as a key exactly if it has an exponent. -/
theorem entryAt?_toEntry (s : String) (h : ∀ e ∈ entries, e.2 ≠ 0) :
    Value.entryAt? (.text s) (entries.map toEntry) =
      if exponentIn s entries = 0 then none else some (toEntry (s, exponentIn s entries)) := by
  induction entries with
  | nil => rfl
  | cons e rest ih =>
    unfold Value.entryAt? at ih ⊢
    rw [List.map_cons, List.find?_cons, toEntry_fst, Value.isSameKey_text, exponentIn]
    by_cases hes : e.1 = s
    · rw [beq_iff_eq.mpr hes, if_pos hes, if_neg (h e List.mem_cons_self), ← hes]
    · rw [beq_false_of_ne hes, if_neg hes]
      exact ih fun f hf => h f (List.mem_cons_of_mem e hf)

theorem exponent_entryAt? (m : DimensionMap) (s : String) :
    (match Value.entryAt? (.text s) (m.entries.map toEntry) with
      | some e => e.2
      | none => .integer 0) = .integer (m.exponent s) := by
  rw [entryAt?_toEntry s m.nonzero, DimensionMap.exponent]
  by_cases hzero : exponentIn s m.entries = 0
  · rw [if_pos hzero, hzero]
  · rw [if_neg hzero]
    rfl

theorem contains_toValue (m : DimensionMap) (s : String) :
    m.toValue.contains (.text s) = .ok (decide (m.exponent s ≠ 0)) := by
  change Except.ok (Value.entryAt? (.text s) (m.entries.map toEntry)).isSome = _
  rw [entryAt?_toEntry s m.nonzero, DimensionMap.exponent]
  split
  · rename_i hzero
    simp [hzero]
  · rename_i hne
    simp [hne]

theorem subscript_toValue_of_exponent {m : DimensionMap} {s : String} (h : m.exponent s ≠ 0) :
    m.toValue.subscript (.text s) = .ok (.integer (m.exponent s)) := by
  change (match Value.entryAt? (.text s) (m.entries.map toEntry) with
    | some e => Except.ok e.2
    | none => Except.error Error.indexRange) = _
  have hne : exponentIn s m.entries ≠ 0 := h
  rw [entryAt?_toEntry s m.nonzero, if_neg hne]
  rfl

theorem filter_toEntry (hnodup : (entries.map Prod.fst).Nodup)
    (hsum : exponentIn s entries + k = 0) :
    (entries.map toEntry).filter (fun e => !e.1.isSameKey (.text s)) =
      (bumpEntry s k entries).map toEntry := by
  induction entries with
  | nil =>
    have hk : k = 0 := by simpa [exponentIn] using hsum
    simp [bumpEntry, hk]
  | cons e rest ih =>
    simp only [List.map_cons, List.nodup_cons] at hnodup
    rw [List.map_cons, List.filter_cons, bumpEntry]
    by_cases hes : e.1 = s
    · rw [exponentIn, if_pos hes] at hsum
      have hkept : ∀ f ∈ rest.map toEntry, (!f.1.isSameKey (.text s)) = true := by
        intro f hf
        obtain ⟨g, hg, rfl⟩ := List.mem_map.mp hf
        have hne : g.1 ≠ s := fun h => hnodup.1 (hes.trans h.symm ▸ List.mem_map_of_mem hg)
        simp [hne]
      rw [List.filter_eq_self.mpr hkept]
      simp [hes, hsum]
    · rw [exponentIn, if_neg hes] at hsum
      rw [ih hnodup.2 hsum]
      simp [hes]

/-- Writing an exponent under a key changes the entry of its symbol. -/
theorem insertEntry_toEntry (hsum : exponentIn s entries + k ≠ 0) :
    Value.insertEntry (.text s) (.integer (exponentIn s entries + k)) (entries.map toEntry) =
      (bumpEntry s k entries).map toEntry := by
  induction entries with
  | nil =>
    have hk : k ≠ 0 := by simpa [exponentIn] using hsum
    simp [Value.insertEntry, bumpEntry, exponentIn, toEntry, hk]
  | cons e rest ih =>
    unfold toEntry at ih ⊢
    rw [List.map_cons, Value.insertEntry, Value.isSameKey_text, bumpEntry]
    by_cases hes : e.1 = s
    · rw [exponentIn, if_pos hes] at hsum ⊢
      simp [hes, hsum]
    · rw [exponentIn, if_neg hes] at hsum ⊢
      simp [hes, ih hsum]

theorem bump_toEntry (m : DimensionMap) (s : String) (k : Int) :
    bump (m.entries.map toEntry) (.text s) (.integer k) =
      .ok ((m.bump s k).entries.map toEntry) := by
  have hadd (n : Int) : (Value.integer n).add (.integer k) = .ok (.integer (n + k)) := rfl
  have hzero (n : Int) : (Value.integer n).equals (.integer 0) = .ok (decide (n = 0)) := by
    rw [Value.equals, Number.compareEqual_integer]
  unfold bump
  extract_lets old
  have hold : old = .integer (exponentIn s m.entries) := exponent_entryAt? m s
  rw [hold, hadd]
  change ((Value.integer _).equals (.integer 0) >>= fun zero => .ok (if zero then _ else _)) = _
  rw [hzero]
  by_cases hsum : exponentIn s m.entries + k = 0
  · rw [decide_eq_true hsum]
    exact congrArg Except.ok (filter_toEntry m.nodup hsum)
  · rw [decide_eq_false hsum]
    exact congrArg Except.ok (insertEntry_toEntry hsum)

theorem foldlM_bump (m : DimensionMap) (powers : List (String × Int)) :
    (powers.map toEntry).foldlM (fun entries e => bump entries e.1 e.2) (m.entries.map toEntry) =
      .ok ((m.bumpAll powers).entries.map toEntry) := by
  induction powers generalizing m with
  | nil => rfl
  | cons p rest ih =>
    rw [List.map_cons, List.foldlM_cons, toEntry_fst, toEntry_snd, bump_toEntry]
    exact ih (m.bump p.1 p.2)

/-- A canonical map is its own normal form, in its order. -/
theorem normalize_toValue (m : DimensionMap) : DimensionMap.normalize m.toValue = .ok m := by
  unfold DimensionMap.normalize
  split
  · rename_i hvacant
    have hentries : m.entries = [] := by
      simpa [DimensionMap.toValue, Value.isVacant] using hvacant
    exact congrArg Except.ok (DimensionMap.ext hentries.symm)
  · have hchecked : (m.entries.map toEntry).mapM DimensionMap.checkEntry = .ok m.entries := by
      rw [List.mapM_map]
      exact (mapM_eq_ok_map fun e _ => rfl).trans (congrArg Except.ok (List.map_id _))
    change ((m.entries.map toEntry).mapM DimensionMap.checkEntry >>= fun powers =>
      .ok (DimensionMap.ofList powers)) = _
    rw [hchecked]
    exact congrArg Except.ok m.ofList_entries

theorem add_toValue (a b : DimensionMap) : add a.toValue b.toValue = .ok (a + b) := by
  change ((b.entries.map toEntry).foldlM (fun entries e => bump entries e.1 e.2)
    (a.entries.map toEntry) >>= fun sum => DimensionMap.normalize (.map sum)) = _
  rw [foldlM_bump]
  exact normalize_toValue (a + b)

def scaledEntry (factor : Value) (e : String × Int) : Except Error (String × Int) := do
  .ok (e.1, ← DimensionMap.scaledExponent (.text e.1) (.integer e.2) factor)

theorem scaleBy_eq (m : DimensionMap) (factor : Value) :
    m.scaleBy factor = (m.entries.mapM (scaledEntry factor)).map DimensionMap.ofList :=
  bind_ok_eq_map

theorem keys_scaledEntry {factor : Value} {entries powers : List (String × Int)}
    (h : entries.mapM (scaledEntry factor) = .ok powers) :
    powers.map Prod.fst = entries.map Prod.fst := by
  have hkeys : List.Forall₂ (fun e p => e.1 = p.1) entries powers := by
    refine (mapM_eq_ok_iff.mp h).imp fun e p hp => ?_
    obtain ⟨n, -, hp⟩ := bind_eq_ok_iff.mp hp
    cases hp
    rfl
  rw [eq_comm, ← List.forall₂_eq_eq_eq, List.forall₂_map_left_iff, List.forall₂_map_right_iff]
  exact hkeys

theorem scale_eq (m : DimensionMap) (factor : Value) :
    scale m.toValue factor = (m.entries.mapM (scaledEntry factor)).map fun powers =>
      (powers.filter fun p => p.2 ≠ 0).map fun p => (.text p.1, p.2) := by
  have hwalk : ((m.entries.map toEntry).mapM fun e => do
      .ok (e.1, ← DimensionMap.scaledExponent e.1 e.2 factor) :
      Except Error (List (Value × Int))) =
        (m.entries.mapM (scaledEntry factor)).map (List.map fun p => (.text p.1, p.2)) := by
    rw [List.mapM_map, ← mapM_map_result]
    refine congrArg m.entries.mapM (funext fun e => ?_)
    unfold scaledEntry
    simp only [Function.comp_apply, toEntry_fst, toEntry_snd]
    cases DimensionMap.scaledExponent (.text e.1) (.integer e.2) factor <;> rfl
  unfold scale DimensionMap.toValue mapEntries
  refine (congrArg (· >>= fun scaled => .ok (scaled.filter fun e => e.2 != 0)) hwalk).trans ?_
  cases m.entries.mapM (scaledEntry factor) with
  | error e => rfl
  | ok powers =>
    refine congrArg Except.ok ?_
    rw [List.filter_map]
    refine congrArg (List.map _) (List.filter_congr fun p _ => ?_)
    by_cases hzero : p.2 = 0
    · simp [hzero]
    · simp [hzero]

theorem scale_toValue (m : DimensionMap) (factor : Value) :
    scale m.toValue factor =
      (m.scaleBy factor).map fun k => k.entries.map fun e => (.text e.1, e.2) := by
  rw [scale_eq, scaleBy_eq]
  cases hpowers : m.entries.mapM (scaledEntry factor) with
  | error e => rfl
  | ok powers =>
    have hnodup : (powers.map Prod.fst).Nodup := (keys_scaledEntry hpowers).symm ▸ m.nodup
    exact congrArg Except.ok (congrArg _ (DimensionMap.entries_ofList hnodup).symm)

/-- The sum with the inverse of the second map, computed with unchecked maps. -/
def quotient (a b : Value) : Except Error DimensionMap := do
  let inverse ← scale b (.integer (-1))
  add a (.map (inverse.map fun e => (e.1, .integer e.2)))

theorem quotient_toValue (a b : DimensionMap) :
    quotient a.toValue b.toValue = .ok (a - b) := by
  have hinverse : .map (((b.scale (-1)).entries.map fun e => (Value.text e.1, e.2)).map
      fun e => (e.1, .integer e.2)) = (b.scale (-1)).toValue := by
    rw [List.map_map]
    rfl
  unfold quotient
  rw [scale_toValue, b.scaleBy_integer (-1) (by decide)]
  change add a.toValue (.map _) = _
  rw [hinverse]
  exact add_toValue a (b.scale (-1))

end Unchecked

end QuantityCalculus
