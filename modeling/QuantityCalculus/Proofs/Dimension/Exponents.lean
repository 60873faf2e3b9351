import Mathlib.Algebra.BigOperators.Group.List.Basic
import Mathlib.Algebra.Ring.Int.Defs
import Mathlib.Data.List.Nodup
import Mathlib.Data.List.Perm.Subperm
import QuantityCalculus.Dimension.Namespaces

/-!
# Maps through their exponents

What a map denotes is the exponent that it gives to every symbol. Sums, multiples and
differences of maps are described here by that view, and two maps agree exactly when
they give the same exponents, which is when their entries are permuted.
-/
namespace QuantityCalculus

/-- The sum of the exponents that a list of powers gives to a symbol. -/
def exponentSum (s : String) (powers : List (String × Int)) : Int :=
  (powers.map fun p => if p.1 = s then p.2 else 0).sum

@[simp] theorem exponentSum_nil (s : String) : exponentSum s [] = 0 := rfl

@[simp] theorem exponentSum_cons (s : String) (p : String × Int) (powers : List (String × Int)) :
    exponentSum s (p :: powers) = (if p.1 = s then p.2 else 0) + exponentSum s powers := by
  simp [exponentSum]

@[simp] theorem exponentSum_append (s : String) (powers more : List (String × Int)) :
    exponentSum s (powers ++ more) = exponentSum s powers + exponentSum s more := by
  simp [exponentSum]

theorem exponentSum_perm (s : String) {powers more : List (String × Int)} (h : powers.Perm more) :
    exponentSum s powers = exponentSum s more :=
  (h.map _).sum_eq

theorem exponentSum_eq_exponentIn (s : String) {entries : List (String × Int)}
    (h : (entries.map Prod.fst).Nodup) : exponentSum s entries = exponentIn s entries := by
  induction entries with
  | nil => rfl
  | cons e rest ih =>
    simp only [List.map_cons, List.nodup_cons] at h
    rw [exponentSum_cons, ih h.2, exponentIn]
    by_cases hes : e.1 = s
    · have hrest : exponentIn s rest = 0 := exponentIn_of_notMem (hes ▸ h.1)
      simp [hes, hrest]
    · simp [hes]

theorem exponentIn_of_mem {e : String × Int} {entries : List (String × Int)}
    (h : (entries.map Prod.fst).Nodup) (he : e ∈ entries) : exponentIn e.1 entries = e.2 := by
  induction entries with
  | nil => simp at he
  | cons f rest ih =>
    simp only [List.map_cons, List.nodup_cons] at h
    rcases List.mem_cons.mp he with rfl | he
    · simp [exponentIn]
    · have hne : f.1 ≠ e.1 := fun heq => h.1 (heq ▸ List.mem_map_of_mem he)
      rw [exponentIn, if_neg hne, ih h.2 he]

theorem mem_of_exponentIn_ne_zero {s : String} {entries : List (String × Int)}
    (h : exponentIn s entries ≠ 0) : (s, exponentIn s entries) ∈ entries := by
  induction entries with
  | nil => simp [exponentIn] at h
  | cons e rest ih =>
    by_cases hes : e.1 = s
    · simp [exponentIn, ← hes]
    · simp only [exponentIn, if_neg hes] at h ⊢
      exact List.mem_cons_of_mem _ (ih h)

namespace DimensionMap

variable (a b m : DimensionMap) (s : String)

theorem mem_entries_iff {e : String × Int} :
    e ∈ m.entries ↔ m.exponent e.1 = e.2 ∧ e.2 ≠ 0 := by
  constructor
  · intro he
    exact ⟨exponentIn_of_mem m.nodup he, m.nonzero e he⟩
  · rintro ⟨hexp, hne⟩
    have hin : exponentIn e.1 m.entries = e.2 := hexp
    have hmem := mem_of_exponentIn_ne_zero (hin ▸ hne)
    rwa [hin] at hmem

theorem mem_symbols_iff (s : String) : s ∈ m.symbols ↔ m.exponent s ≠ 0 := by
  constructor
  · intro h
    obtain ⟨e, he, rfl⟩ := List.mem_map.mp h
    obtain ⟨hexponent, hne⟩ := m.mem_entries_iff.mp he
    exact hexponent ▸ hne
  · intro h
    exact List.mem_map.mpr ⟨(s, m.exponent s), m.mem_entries_iff.mpr ⟨rfl, h⟩, rfl⟩

theorem exponentSum_entries : exponentSum s m.entries = m.exponent s :=
  exponentSum_eq_exponentIn s m.nodup

theorem nodup_entries : m.entries.Nodup := List.Nodup.of_map _ m.nodup

theorem exponent_bumpAll (powers : List (String × Int)) :
    (m.bumpAll powers).exponent s = m.exponent s + exponentSum s powers := by
  induction powers generalizing m with
  | nil => simp
  | cons p rest ih =>
    rw [bumpAll_cons, ih, exponent_bump, exponentSum_cons]
    simp only [eq_comm (a := s)]
    omega

@[simp] theorem exponent_ofList (powers : List (String × Int)) :
    (ofList powers).exponent s = exponentSum s powers := by
  rw [ofList, exponent_bumpAll]
  simp

@[simp] theorem exponent_add : (a + b).exponent s = a.exponent s + b.exponent s := by
  change (a.bumpAll b.entries).exponent s = _
  rw [exponent_bumpAll, exponentSum_entries]

theorem exponentIn_map_mul (n : Int) (entries : List (String × Int)) :
    exponentIn s (entries.map fun e => (e.1, e.2 * n)) = exponentIn s entries * n := by
  induction entries with
  | nil => simp [exponentIn]
  | cons e rest ih =>
    simp only [List.map_cons, exponentIn, ih]
    split <;> rfl

@[simp] theorem exponent_scale (n : Int) : (m.scale n).exponent s = m.exponent s * n := by
  unfold scale
  split
  · rename_i hn
    simp [hn]
  · exact exponentIn_map_mul s n m.entries

@[simp] theorem exponent_sub : (a - b).exponent s = a.exponent s - b.exponent s := by
  change (a + b.scale (-1)).exponent s = _
  rw [exponent_add, exponent_scale]
  omega

theorem agrees_iff_perm : a.agrees b = true ↔ a.entries.Perm b.entries := by
  simp only [agrees, Bool.and_eq_true, beq_iff_eq, List.all_eq_true]
  constructor
  · rintro ⟨hlen, hall⟩
    have hsub : a.entries ⊆ b.entries := by
      intro e he
      exact (b.mem_entries_iff).mpr ⟨hall e he, a.nonzero e he⟩
    exact (a.nodup_entries.subperm hsub).perm_of_length_le (Nat.le_of_eq hlen.symm)
  · intro h
    refine ⟨h.length_eq, fun e he => ?_⟩
    exact ((b.mem_entries_iff).mp (h.mem_iff.mp he)).1

theorem agrees_iff_exponent : a.agrees b = true ↔ ∀ s, a.exponent s = b.exponent s := by
  rw [agrees_iff_perm]
  constructor
  · intro h s
    rw [← exponentSum_entries, ← exponentSum_entries, exponentSum_perm s h]
  · intro h
    apply (List.perm_ext_iff_of_nodup a.nodup_entries b.nodup_entries).mpr
    intro e
    rw [mem_entries_iff, mem_entries_iff, h]

variable {a b} in
theorem agrees_symm (h : a.agrees b = true) : b.agrees a = true := by
  rw [agrees_iff_exponent] at h ⊢
  exact fun s => (h s).symm

def sum (maps : List DimensionMap) : DimensionMap := maps.foldl (· + ·) ∅

theorem exponent_foldl_add (maps : List DimensionMap) :
    (maps.foldl (· + ·) m).exponent s = m.exponent s + (maps.map (·.exponent s)).sum := by
  induction maps generalizing m with
  | nil => simp
  | cons a rest ih =>
    rw [List.foldl_cons, ih, exponent_add, List.map_cons, List.sum_cons]
    omega

theorem exponent_sum (maps : List DimensionMap) :
    (sum maps).exponent s = (maps.map (·.exponent s)).sum := by
  rw [sum, exponent_foldl_add]
  exact Int.zero_add _

end DimensionMap

end QuantityCalculus
