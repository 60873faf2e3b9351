import QuantityCalculus.Proofs.Dimension.Unchecked

/-!
# Normalizing entry by entry

A map is normalized in one walk over its entries: each is checked and then written, unless its
exponent is zero. Whatever the map held, the walk leaves texts as keys, none of them twice, and
nonzero integers as exponents, or it ends with the first entry that is refused. On a map whose
keys differ it does what checking all entries and collecting their powers does.
-/
namespace QuantityCalculus

def Value.HasUniqueKeys : Value → Prop
  | map entries => entries.Pairwise fun e f => e.1.isSameKey f.1 = false
  | _ => True

namespace Unchecked

/-- Texts as keys, none of them twice, and nonzero integers as exponents. -/
structure Canonical (entries : List (Value × Value)) : Prop where
  typed : ∀ e ∈ entries, ∃ s n, e = (.text s, .integer n) ∧ n ≠ 0
  unique : entries.Pairwise fun e f => e.1.isSameKey f.1 = false

theorem canonical_toEntry (m : DimensionMap) : Canonical (m.entries.map toEntry) where
  typed := by
    intro e he
    obtain ⟨p, hp, rfl⟩ := List.mem_map.mp he
    exact ⟨p.1, p.2, rfl, m.nonzero p hp⟩
  unique := by
    have hkeys : m.entries.Pairwise fun p q => p.1 ≠ q.1 := List.pairwise_map.mp m.nodup
    refine List.pairwise_map.mpr (hkeys.imp fun hne => ?_)
    exact beq_false_of_ne hne

/-- Write an entry that passes the check, unless its exponent is zero. -/
def writeEntry (written : List (Value × Value)) (e : Value × Value) :
    Except Error (List (Value × Value)) := do
  let power ← DimensionMap.checkEntry e
  .ok (if power.2 = 0 then written
    else Value.insertEntry (.text power.1) (.integer power.2) written)

def normalized (v : Value) : Except Error Value :=
  if v.isVacant then .ok (.map [])
  else
    match v with
    | .map entries => do .ok (.map (← entries.foldlM writeEntry []))
    | _ => .error .missingMember

theorem writeEntry_canonical {m : DimensionMap} {e : Value × Value} {out : List (Value × Value)}
    (h : writeEntry (m.entries.map toEntry) e = .ok out) :
    ∃ k : DimensionMap, out = k.entries.map toEntry := by
  obtain ⟨⟨s, n⟩, -, h⟩ := bind_eq_ok_iff.mp h
  by_cases hn : n = 0
  · rw [if_pos hn] at h
    exact ⟨m, (Except.ok.inj h).symm⟩
  · -- writing `n` is adding what is missing to it
    have hsum : exponentIn s m.entries + (n - exponentIn s m.entries) = n := by omega
    have hwritten := insertEntry_toEntry (hsum.trans_ne hn)
    rw [hsum] at hwritten
    rw [if_neg hn, hwritten] at h
    exact ⟨m.bump s (n - exponentIn s m.entries), (Except.ok.inj h).symm⟩

theorem foldlM_writeEntry_canonical {m : DimensionMap} {entries out : List (Value × Value)}
    (h : entries.foldlM writeEntry (m.entries.map toEntry) = .ok out) :
    ∃ k : DimensionMap, out = k.entries.map toEntry := by
  induction entries generalizing m with
  | nil => exact ⟨m, (Except.ok.inj h).symm⟩
  | cons e rest ih =>
    rw [List.foldlM_cons] at h
    obtain ⟨written, hwritten, h⟩ := bind_eq_ok_iff.mp h
    obtain ⟨k, rfl⟩ := writeEntry_canonical hwritten
    exact ih h

/-- What a value is normalized to is always a canonical map. -/
theorem normalized_canonical {v w : Value} (h : normalized v = .ok w) :
    ∃ m : DimensionMap, w = m.toValue := by
  unfold normalized at h
  split at h
  · exact ⟨∅, (Except.ok.inj h).symm⟩
  · split at h
    · obtain ⟨out, hout, h⟩ := bind_eq_ok_iff.mp h
      obtain ⟨m, rfl⟩ := foldlM_writeEntry_canonical (m := ∅) hout
      exact ⟨m, (Except.ok.inj h).symm⟩
    · cases h

theorem text_of_checkEntry {e : Value × Value} {power : String × Int}
    (h : DimensionMap.checkEntry e = .ok power) : e.1 = .text power.1 := by
  unfold DimensionMap.checkEntry at h
  split at h
  · rename_i s hs
    obtain ⟨n, -, h⟩ := bind_eq_ok_iff.mp h
    cases h
    exact hs
  · cases h

theorem bump_zero_of_notMem {m : DimensionMap} {s : String} (hs : s ∉ m.symbols) :
    m.bump s 0 = m := by
  apply DimensionMap.ext
  exact (bumpEntry_of_notMem hs).trans (List.append_nil m.entries)

theorem writeEntry_of_notMem {m : DimensionMap} {e : Value × Value} {power : String × Int}
    (h : DimensionMap.checkEntry e = .ok power) (hs : power.1 ∉ m.symbols) :
    writeEntry (m.entries.map toEntry) e =
      .ok ((m.bump power.1 power.2).entries.map toEntry) := by
  unfold writeEntry
  rw [h]
  by_cases hn : power.2 = 0
  · rw [hn, bump_zero_of_notMem hs]
    exact congrArg Except.ok (if_pos hn)
  · have hzero : exponentIn power.1 m.entries = 0 := exponentIn_of_notMem hs
    have hsum : exponentIn power.1 m.entries + power.2 ≠ 0 := by rwa [hzero, Int.zero_add]
    have hwritten := insertEntry_toEntry hsum
    rw [hzero, Int.zero_add] at hwritten
    exact congrArg Except.ok ((if_neg hn).trans hwritten)

theorem foldlM_writeEntry_of_unique {m : DimensionMap} {entries : List (Value × Value)}
    (hunique : entries.Pairwise fun e f => e.1.isSameKey f.1 = false)
    (hnew : ∀ e ∈ entries, ∀ s ∈ m.symbols, e.1 ≠ .text s) :
    entries.foldlM writeEntry (m.entries.map toEntry) =
      (entries.mapM DimensionMap.checkEntry).map fun powers =>
        (m.bumpAll powers).entries.map toEntry := by
  induction entries generalizing m with
  | nil => rfl
  | cons e rest ih =>
    rw [List.foldlM_cons, List.mapM_cons]
    cases hcheck : DimensionMap.checkEntry e with
    | error error =>
      rw [writeEntry, hcheck]
      rfl
    | ok power =>
      have htext := text_of_checkEntry hcheck
      have hs : power.1 ∉ m.symbols := fun hmem =>
        hnew e List.mem_cons_self power.1 hmem htext
      obtain ⟨hfirst, hrest⟩ := List.pairwise_cons.mp hunique
      -- the key just written differs from all that follow, so these are still new
      have hstill : ∀ f ∈ rest, ∀ t ∈ (m.bump power.1 power.2).symbols, f.1 ≠ .text t := by
        intro f hf t ht
        rcases mem_keys_bumpEntry ht with rfl | hold
        · intro heq
          have hdiffers := hfirst f hf
          rw [htext, heq] at hdiffers
          simp at hdiffers
        · exact hnew f (List.mem_cons_of_mem e hf) t hold
      rw [writeEntry_of_notMem hcheck hs]
      refine (ih hrest hstill).trans ?_
      cases rest.mapM DimensionMap.checkEntry <;> rfl

/-- On maps with different keys, the walk collects the powers that the entries stand for. -/
theorem normalized_eq {v : Value} (h : v.HasUniqueKeys) :
    normalized v = (DimensionMap.normalize v).map DimensionMap.toValue := by
  unfold normalized DimensionMap.normalize
  split
  · rfl
  · cases v with
    | map entries =>
      have hwalk := foldlM_writeEntry_of_unique (m := ∅) h fun e _ s hs => by cases hs
      refine (congrArg (Except.map Value.map) hwalk).trans ?_
      dsimp only
      cases entries.mapM DimensionMap.checkEntry <;> rfl
    | absent | number a | text s | list items => rfl

theorem hasUniqueKeys_toValue (m : DimensionMap) : m.toValue.HasUniqueKeys :=
  (canonical_toEntry m).unique

theorem normalized_toValue (m : DimensionMap) : normalized m.toValue = .ok m.toValue := by
  rw [normalized_eq (hasUniqueKeys_toValue m), normalize_toValue]
  rfl

end Unchecked

end QuantityCalculus
