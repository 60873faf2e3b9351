import QuantityCalculus.Proofs.Dimension.Normalized

/-!
# Sums entry by entry

A sum of maps is computed in one walk over the second map, which changes a copy of the first: an
exponent that is changed keeps its place, a symbol whose exponent reaches zero leaves the copy, and
a new symbol goes to its end. As no symbol comes twice in the second map, none that has left comes
back. So what the walk leaves begins with the symbols of the first map that have not cancelled, in
its order, and ends with those of the second that are not in the first, in its order. It is
canonical, and normalizing it changes nothing.
-/
namespace QuantityCalculus

namespace DimensionMap

variable {m : DimensionMap} {s : String} {k : Int}

/-- One power leaves the symbols that still have an exponent in their places, and puts a new symbol
at the end. -/
theorem symbols_bump_eq (hk : k ≠ 0) :
    (m.bump s k).symbols = m.symbols.filter (fun t => (m.bump s k).exponent t ≠ 0) ++
      [s].filter fun t => t ∉ m.symbols := by
  have hexponent (t : String) (ht : t ∈ m.symbols) :
      (m.bump s k).exponent t ≠ 0 ↔ t ≠ s ∨ m.exponent s + k ≠ 0 := by
    have hne : m.exponent t ≠ 0 := (m.mem_symbols_iff t).mp ht
    rw [exponent_bump]
    by_cases hts : t = s
    · simp [hts]
    · simp [hts, hne]
  rw [List.filter_congr fun t ht => decide_eq_decide.mpr (hexponent t ht)]
  by_cases hs : s ∈ m.symbols
  · rw [List.filter_cons_of_neg (by simpa), List.filter_nil, List.append_nil]
    exact keys_bumpEntry_of_mem m.nodup hs
  · have hkept : m.symbols.filter (fun t => t ≠ s ∨ m.exponent s + k ≠ 0) = m.symbols :=
      List.filter_eq_self.mpr fun t ht => decide_eq_true (.inl fun hts => hs (hts ▸ ht))
    have hbump : (m.bump s k).entries = m.entries ++ if k = 0 then [] else [(s, k)] :=
      bumpEntry_of_notMem hs
    rw [hkept, List.filter_cons_of_pos (by simpa), List.filter_nil, symbols, hbump, if_neg hk,
      List.map_append]
    rfl

theorem filter_symbols_bump {q : String → Bool} (hk : k ≠ 0)
    (hold : ∀ t ∈ m.symbols, q t = true → (m.bump s k).exponent t ≠ 0)
    (hnew : s ∉ m.symbols → q s = true) :
    (m.bump s k).symbols.filter q = m.symbols.filter q ++ [s].filter fun t => t ∉ m.symbols := by
  rw [symbols_bump_eq hk, List.filter_append, List.filter_filter, List.filter_filter]
  refine congrArg₂ (· ++ ·) (List.filter_congr fun t ht => ?_) (List.filter_congr fun t ht => ?_)
  · exact Bool.and_eq_left_iff_imp.mpr fun hq => decide_eq_true (hold t ht hq)
  · rw [List.mem_singleton.mp ht]
    exact Bool.and_eq_right_iff_imp.mpr fun h => hnew (of_decide_eq_true h)

/-- Multiplying by powers of different symbols leaves the symbols that do not cancel, in their
order, and behind them the new ones, in theirs. -/
theorem symbols_bumpAll {powers : List (String × Int)} (hkeys : (powers.map Prod.fst).Nodup)
    (hnonzero : ∀ p ∈ powers, p.2 ≠ 0) :
    (m.bumpAll powers).symbols =
      m.symbols.filter (fun s => m.exponent s + exponentSum s powers ≠ 0) ++
        (powers.map Prod.fst).filter fun s => s ∉ m.symbols := by
  induction powers generalizing m with
  | nil =>
    have hkept : m.symbols.filter (fun s => m.exponent s + exponentSum s [] ≠ 0) = m.symbols :=
      List.filter_eq_self.mpr fun s hs => by simpa using (m.mem_symbols_iff s).mp hs
    rw [hkept]
    exact (List.append_nil m.symbols).symm
  | cons p rest ih =>
    rw [List.map_cons, List.nodup_cons] at hkeys
    obtain ⟨hp, hrest⟩ := List.forall_mem_cons.mp hnonzero
    have hlast : exponentSum p.1 rest = 0 :=
      (exponentSum_eq_exponentIn p.1 hkeys.2).trans (exponentIn_of_notMem hkeys.1)
    have htotal (s : String) : m.exponent s + exponentSum s (p :: rest) =
        (m.bump p.1 p.2).exponent s + exponentSum s rest := by
      rw [exponent_bump, exponentSum_cons, add_assoc]
      simp only [eq_comm]
    -- a symbol that leaves stays away, since its power does not come again
    have hold : ∀ s ∈ m.symbols, (m.bump p.1 p.2).exponent s + exponentSum s rest ≠ 0 →
        (m.bump p.1 p.2).exponent s ≠ 0 := by
      intro s hs hne hzero
      by_cases hsp : s = p.1
      · rw [hzero, hsp, hlast] at hne
        exact hne rfl
      · rw [exponent_bump, if_neg hsp, add_zero] at hzero
        exact (m.mem_symbols_iff s).mp hs hzero
    have hnew : p.1 ∉ m.symbols → (m.bump p.1 p.2).exponent p.1 + exponentSum p.1 rest ≠ 0 := by
      intro hp'
      rw [mem_symbols_iff, not_not] at hp'
      rw [exponent_bump, if_pos rfl, hp', hlast]
      omega
    have hlater : ∀ s ∈ rest.map Prod.fst, s ∉ (m.bump p.1 p.2).symbols ↔ s ∉ m.symbols := by
      intro s hs
      have hsp : s ≠ p.1 := fun heq => hkeys.1 (heq ▸ hs)
      rw [mem_symbols_iff, mem_symbols_iff, exponent_bump, if_neg hsp, add_zero]
    rw [bumpAll_cons, ih hkeys.2 hrest,
      filter_symbols_bump hp (fun s hs h => hold s hs (of_decide_eq_true h))
        (fun h => decide_eq_true (hnew h)),
      List.filter_congr fun s hs => decide_eq_decide.mpr (hlater s hs), List.append_assoc,
      ← List.filter_append]
    simp only [htotal]
    rfl

theorem symbols_add (a b : DimensionMap) : (a + b).symbols =
    a.symbols.filter (fun s => a.exponent s + b.exponent s ≠ 0) ++
      b.symbols.filter fun s => s ∉ a.symbols := by
  have hwalk := symbols_bumpAll (m := a) b.nodup b.nonzero
  simp only [exponentSum_entries] at hwalk
  exact hwalk

end DimensionMap

namespace Unchecked

/-- What adding the entries of the second map to the first leaves, before it is normalized. -/
def merge (a b : Value) : Except Error (List (Value × Value)) := do
  let start ← entriesOf a
  (← mapEntries b).foldlM (fun entries e => bump entries e.1 e.2) start

theorem add_eq_normalize_merge (a b : Value) :
    add a b = merge a b >>= fun sum => DimensionMap.normalize (.map sum) := by
  unfold add merge
  rw [bind_assoc]
  refine bind_congr fun start => ?_
  rw [bind_assoc]

theorem merge_toValue (a b : DimensionMap) :
    merge a.toValue b.toValue = .ok ((a + b).entries.map toEntry) :=
  foldlM_bump a b.entries

end Unchecked

namespace DimensionMap

/-- The sum of maps gives every symbol the sum of its exponents. The walk that computes it leaves
texts as keys, none of them twice, and nonzero integers, so normalizing changes nothing. First come
the symbols of the first map that do not cancel, in its order, then those of the second map that
are not in the first, in its order. -/
theorem sum_pointwise_in_order (a b : DimensionMap) :
    Unchecked.add a.toValue b.toValue = .ok (a + b) ∧
    (∀ s, (a + b).exponent s = a.exponent s + b.exponent s) ∧
    (∃ merged, Unchecked.merge a.toValue b.toValue = .ok merged ∧
      Unchecked.add a.toValue b.toValue = normalize (.map merged) ∧ Unchecked.Canonical merged ∧
      (a + b).toValue = .map merged) ∧
    (a + b).symbols = a.symbols.filter (fun s => a.exponent s + b.exponent s ≠ 0) ++
      b.symbols.filter fun s => s ∉ a.symbols := by
  have hadd : Unchecked.add a.toValue b.toValue = normalize (a + b).toValue := by
    rw [Unchecked.add_eq_normalize_merge, Unchecked.merge_toValue]
    rfl
  refine ⟨hadd.trans (Unchecked.normalize_toValue (a + b)), exponent_add a b, ?_, symbols_add a b⟩
  exact ⟨_, Unchecked.merge_toValue a b, hadd, Unchecked.canonical_toEntry (a + b), rfl⟩

example :
    (ofList [("m", 1), ("s", -1), ("kg", 2)] + ofList [("A", 1), ("s", 1), ("m", -2)]).entries =
      [("m", -1), ("kg", 2), ("A", 1)] := by
  decide

end DimensionMap

end QuantityCalculus
