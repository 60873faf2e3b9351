/-!
# Exponent maps

A product of powers of symbols is a map from symbols to nonzero integer
exponents. The entries keep the order in which their symbols came: a new symbol
goes to the end, an exponent that changes keeps its place, and a symbol whose
exponent reaches zero leaves the map. Two maps denote the same product when
they agree on every symbol, whatever their order.
-/
namespace QuantityCalculus

/-- The exponent that a list of entries gives to a symbol, zero if it has none. -/
def exponentIn (s : String) : List (String × Int) → Int
  | [] => 0
  | (t, e) :: rest => if t = s then e else exponentIn s rest

def bumpEntry (s : String) (k : Int) : List (String × Int) → List (String × Int)
  | [] => if k = 0 then [] else [(s, k)]
  | (t, e) :: rest =>
    if t = s then
      if e + k = 0 then rest else (t, e + k) :: rest
    else
      (t, e) :: bumpEntry s k rest

theorem mem_keys_bumpEntry {s t : String} {k : Int} {entries : List (String × Int)}
    (h : t ∈ (bumpEntry s k entries).map Prod.fst) : t = s ∨ t ∈ entries.map Prod.fst := by
  induction entries with
  | nil => by_cases hk : k = 0 <;> simp_all [bumpEntry]
  | cons e rest ih =>
    simp only [bumpEntry] at h
    split at h
    · split at h
      · exact .inr (List.mem_cons_of_mem _ h)
      · exact .inr (by simpa using h)
    · simp only [List.map_cons, List.mem_cons] at h ⊢
      rcases h with h | h
      · exact .inr (.inl h)
      · exact (ih h).imp_right .inr

theorem nodup_bumpEntry (s : String) (k : Int) {entries : List (String × Int)}
    (h : (entries.map Prod.fst).Nodup) : ((bumpEntry s k entries).map Prod.fst).Nodup := by
  induction entries with
  | nil => by_cases hk : k = 0 <;> simp [bumpEntry, hk]
  | cons e rest ih =>
    simp only [List.map_cons, List.nodup_cons] at h
    simp only [bumpEntry]
    split
    · split
      · exact h.2
      · simpa using h
    · rename_i hne
      simp only [List.map_cons, List.nodup_cons]
      refine ⟨fun hmem => ?_, ih h.2⟩
      rcases mem_keys_bumpEntry hmem with heq | hin
      · exact hne heq
      · exact h.1 hin

theorem nonzero_bumpEntry (s : String) (k : Int) {entries : List (String × Int)}
    (h : ∀ e ∈ entries, e.2 ≠ 0) : ∀ e ∈ bumpEntry s k entries, e.2 ≠ 0 := by
  induction entries with
  | nil => by_cases hk : k = 0 <;> simp [bumpEntry, hk]
  | cons e rest ih =>
    have hrest : ∀ e ∈ rest, e.2 ≠ 0 := fun x hx => h x (List.mem_cons_of_mem _ hx)
    simp only [bumpEntry]
    split
    · split
      · exact hrest
      · rename_i hsum
        intro x hx
        rcases List.mem_cons.mp hx with rfl | hx
        · exact hsum
        · exact hrest x hx
    · intro x hx
      rcases List.mem_cons.mp hx with rfl | hx
      · exact h _ List.mem_cons_self
      · exact ih hrest x hx

theorem exponentIn_of_notMem {s : String} {entries : List (String × Int)}
    (h : s ∉ entries.map Prod.fst) : exponentIn s entries = 0 := by
  induction entries with
  | nil => rfl
  | cons e rest ih =>
    simp only [List.map_cons, List.mem_cons, not_or] at h
    rw [exponentIn, if_neg (Ne.symm h.1), ih h.2]

theorem exponentIn_bumpEntry (s t : String) (k : Int) {entries : List (String × Int)}
    (h : (entries.map Prod.fst).Nodup) :
    exponentIn t (bumpEntry s k entries) = exponentIn t entries + if t = s then k else 0 := by
  induction entries with
  | nil =>
    by_cases hk : k = 0
    · simp [bumpEntry, exponentIn, hk]
    · simp [bumpEntry, exponentIn, hk, eq_comm]
  | cons e rest ih =>
    simp only [List.map_cons, List.nodup_cons] at h
    simp only [bumpEntry, exponentIn]
    split
    · rename_i hes
      -- the symbol stands only here, so the rest gives it no exponent
      have hrest : exponentIn s rest = 0 := exponentIn_of_notMem (hes ▸ h.1)
      split
      · by_cases hts : t = s
        · subst hts
          simp_all
        · have : e.1 ≠ t := fun h => hts (h.symm.trans hes)
          simp [hts, this]
      · simp only [exponentIn]
        by_cases hts : t = s
        · simp [hts, hes]
        · have : e.1 ≠ t := fun h => hts (h.symm.trans hes)
          simp [hts, this]
    · rename_i hes
      simp only [exponentIn, ih h.2]
      by_cases het : e.1 = t
      · have : t ≠ s := fun h => hes (het.trans h)
        simp [het, this]
      · simp [het]

/-- Symbols with nonzero exponents, in order of arrival. -/
structure DimensionMap where
  entries : List (String × Int)
  nodup : (entries.map Prod.fst).Nodup
  nonzero : ∀ e ∈ entries, e.2 ≠ 0

namespace DimensionMap

def empty : DimensionMap := ⟨[], by simp, by simp⟩

instance : EmptyCollection DimensionMap := ⟨empty⟩

instance : Inhabited DimensionMap := ⟨empty⟩

@[ext] theorem ext {a b : DimensionMap} (h : a.entries = b.entries) : a = b := by
  cases a
  cases b
  simpa using h

instance : DecidableEq DimensionMap := fun a b =>
  decidable_of_iff (a.entries = b.entries) ⟨ext, fun h => h ▸ rfl⟩

def exponent (m : DimensionMap) (s : String) : Int := exponentIn s m.entries

def symbols (m : DimensionMap) : List String := m.entries.map Prod.fst

def isEmpty (m : DimensionMap) : Bool := m.entries.isEmpty

def bump (m : DimensionMap) (s : String) (k : Int) : DimensionMap :=
  ⟨bumpEntry s k m.entries, nodup_bumpEntry s k m.nodup, nonzero_bumpEntry s k m.nonzero⟩

def bumpAll (m : DimensionMap) (powers : List (String × Int)) : DimensionMap :=
  powers.foldl (fun m p => m.bump p.1 p.2) m

/-- The product of powers, from left to right. -/
def ofList (powers : List (String × Int)) : DimensionMap := empty.bumpAll powers

def add (a b : DimensionMap) : DimensionMap := a.bumpAll b.entries

def scaleNonzero (m : DimensionMap) (n : Int) (h : n ≠ 0) : DimensionMap where
  entries := m.entries.map fun e => (e.1, e.2 * n)
  nodup := by simpa [Function.comp_def] using m.nodup
  nonzero := by
    intro e he
    obtain ⟨x, hx, rfl⟩ := List.mem_map.mp he
    exact Int.mul_ne_zero (m.nonzero x hx) h

/-- Every exponent times `n`; nothing is left if `n` is zero. -/
def scale (m : DimensionMap) (n : Int) : DimensionMap :=
  if h : n = 0 then empty else m.scaleNonzero n h

def sub (a b : DimensionMap) : DimensionMap := a.add (b.scale (-1))

instance : Add DimensionMap := ⟨add⟩

instance : Sub DimensionMap := ⟨sub⟩

/-- Both maps have the same symbols with the same exponents, in any order. -/
def agrees (a b : DimensionMap) : Bool :=
  a.entries.length == b.entries.length &&
    a.entries.all fun e => b.exponent e.1 == e.2

def sorted (m : DimensionMap) : List (String × Int) :=
  m.entries.mergeSort fun a b => decide (a.1 ≤ b.1)

@[simp] theorem entries_empty : empty.entries = [] := rfl

@[simp] theorem exponent_empty (s : String) : empty.exponent s = 0 := rfl

@[simp] theorem exponent_bump (m : DimensionMap) (s t : String) (k : Int) :
    (m.bump s k).exponent t = m.exponent t + if t = s then k else 0 :=
  exponentIn_bumpEntry s t k m.nodup

@[simp] theorem bumpAll_nil (m : DimensionMap) : m.bumpAll [] = m := rfl

@[simp] theorem bumpAll_cons (m : DimensionMap) (p : String × Int) (powers : List (String × Int)) :
    m.bumpAll (p :: powers) = (m.bump p.1 p.2).bumpAll powers := rfl

theorem bumpAll_append (m : DimensionMap) (powers more : List (String × Int)) :
    m.bumpAll (powers ++ more) = (m.bumpAll powers).bumpAll more := by
  simp [bumpAll]

end DimensionMap

end QuantityCalculus
