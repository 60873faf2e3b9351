import QuantityCalculus.Proofs.Dimension.Laws
import QuantityCalculus.Proofs.Dimension.Normalized

/-!
# Dimensions as maps of values

The operations on dimensions are carried out here on maps of values, which are normalized again
after each step; nothing in their type keeps them canonical. On canonical maps every one of them
does what the operation on dimensions does, with the same entries in the same order or the same
error, and comparing such maps entry by entry compares the exponents of all symbols.
-/
namespace QuantityCalculus

namespace DimensionMap

theorem isEmpty_iff_exponent (m : DimensionMap) : m.isEmpty = true ↔ ∀ s, m.exponent s = 0 := by
  rw [isEmpty, List.isEmpty_iff]
  constructor
  · intro h s
    rw [exponent, h]
    rfl
  · intro h
    rw [List.eq_nil_iff_forall_not_mem]
    intro e he
    obtain ⟨hexponent, hne⟩ := m.mem_entries_iff.mp he
    exact hne (hexponent.symm.trans (h e.1))

end DimensionMap

theorem Dimensions.isDimensionless_iff_exponent (d : Dimensions) :
    d.isDimensionless = true ↔ ∀ ns s, d.exponent ns s = 0 := by
  have hempty : d.isDimensionless = true ↔ ∀ ns, (d.get ns).isEmpty = true := by
    simp only [isDimensionless, Bool.and_eq_true, and_assoc, Namespace.forall_iff]
    rfl
  simp only [hempty, DimensionMap.isEmpty_iff_exponent]
  rfl

namespace Unchecked

variable (m k : DimensionMap)

/-- The entries of a map as a set, by which maps are hashed. -/
def itemSet : Value → Set (Value × Value)
  | .map entries => {e | e ∈ entries}
  | _ => ∅

def exponentAt (s : String) : Value → Value
  | .map entries =>
    match Value.entryAt? (.text s) entries with
    | some e => e.2
    | none => .integer 0
  | _ => .integer 0

/-- The map with its exponents scaled, as it stands before it is normalized. -/
def multiple (n a : Value) : Except Error Value := do
  .ok (.map ((← scale a n).map fun e => (e.1, .integer e.2)))

theorem exponentAt_toValue (s : String) : exponentAt s m.toValue = .integer (m.exponent s) :=
  exponent_entryAt? m s

theorem isVacant_toValue : m.toValue.isVacant = m.isEmpty := by
  simp [DimensionMap.toValue, Value.isVacant, DimensionMap.isEmpty]

theorem multiple_toValue (n : Value) :
    multiple n m.toValue = (m.scaleBy n).map DimensionMap.toValue := by
  unfold multiple
  rw [scale_toValue]
  cases m.scaleBy n with
  | error e => rfl
  | ok scaled =>
    refine congrArg Except.ok (congrArg Value.map ?_)
    rw [List.map_map]
    rfl

theorem hasEntries_toEntry {entries : List (String × Int)} (h : ∀ e ∈ entries, e.2 ≠ 0) :
    hasEntries k.toValue (entries.map toEntry) =
      .ok (entries.all fun e => k.exponent e.1 == e.2) := by
  induction entries with
  | nil => rfl
  | cons e rest ih =>
    have hrest := ih fun f hf => h f (List.mem_cons_of_mem e hf)
    rw [List.map_cons, hasEntries, List.all_cons, toEntry_fst, toEntry_snd, contains_toValue]
    by_cases hzero : k.exponent e.1 = 0
    · have hdiffers : ¬0 = e.2 := (h e List.mem_cons_self).symm
      simp [hzero, hdiffers, bind, Except.bind]
    · have hequals : (Value.integer (k.exponent e.1)).equals (.integer e.2) =
          .ok (decide (k.exponent e.1 = e.2)) := by
        rw [Value.equals, Number.compareEqual_integer]
      rw [subscript_toValue_of_exponent hzero, hrest, decide_eq_true hzero]
      change ((Value.integer (k.exponent e.1)).equals (.integer e.2) >>= fun same =>
        if same then _ else _) = _
      rw [hequals]
      by_cases hsame : k.exponent e.1 = e.2
      · rw [decide_eq_true hsame, beq_iff_eq.mpr hsame]
        rfl
      · rw [decide_eq_false hsame, beq_false_of_ne hsame]
        rfl

theorem agree_toValue : agree m.toValue k.toValue = .ok (m.agrees k) := by
  have hsize (a : DimensionMap) : size a.toValue = .ok a.entries.length := by
    simp [size, DimensionMap.toValue]
  unfold agree DimensionMap.agrees
  rw [hsize, hsize]
  change (if m.entries.length = k.entries.length then
    hasEntries k.toValue (m.entries.map toEntry) else .ok false) = _
  rw [hasEntries_toEntry k m.nonzero]
  by_cases hlength : m.entries.length = k.entries.length
  · simp [hlength]
  · simp [hlength]

theorem itemSet_eq_of_agrees (h : m.agrees k = true) :
    itemSet m.toValue = itemSet k.toValue := by
  have hperm := (DimensionMap.agrees_iff_perm m k).mp h
  exact Set.ext fun e => (hperm.map toEntry).mem_iff

structure Triple where
  physical : Value
  algebraic : Value
  symbolic : Value

namespace Triple

def get (t : Triple) : Namespace → Value
  | .physical => t.physical
  | .algebraic => t.algebraic
  | .symbolic => t.symbolic

def dimensionless : Triple := ⟨.map [], .map [], .map []⟩

/-- A triple of maps, which are normalized one after the other. -/
def ofMaps (physical algebraic symbolic : Value) : Except Error Triple := do
  .ok ⟨← normalized physical, ← normalized algebraic, ← normalized symbolic⟩

/-- Combine the maps of each namespace by an operation that has a map as result. -/
def combine (f : Value → Value → Except Error DimensionMap) (t u : Triple) :
    Except Error Triple := do
  let physical ← f t.physical u.physical
  let algebraic ← f t.algebraic u.algebraic
  let symbolic ← f t.symbolic u.symbolic
  ofMaps physical.toValue algebraic.toValue symbolic.toValue

def mul : Triple → Triple → Except Error Triple := combine add

def div : Triple → Triple → Except Error Triple := combine quotient

/-- A power with an exponent of any kind; zero gives no dimensions at all. -/
def powBy (t : Triple) (n : Value) : Except Error Triple := do
  if ← n.equals (.integer 0) then .ok dimensionless
  else ofMaps (← multiple n t.physical) (← multiple n t.algebraic) (← multiple n t.symbolic)

def equals (t u : Triple) : Except Error Bool := do
  if ← agree t.physical u.physical then
    if ← agree t.algebraic u.algebraic then agree t.symbolic u.symbolic else .ok false
  else
    .ok false

def isDimensionless (t : Triple) : Bool :=
  t.physical.isVacant && t.algebraic.isVacant && t.symbolic.isVacant

def hashKey (t : Triple) (ns : Namespace) : Set (Value × Value) := itemSet (t.get ns)

def exponent (t : Triple) (ns : Namespace) (s : String) : Value := exponentAt s (t.get ns)

/-- All maps have texts as keys, none of them twice, and nonzero integers as exponents. -/
def IsCanonical (t : Triple) : Prop :=
  ∀ ns, ∃ entries, t.get ns = .map entries ∧ Canonical entries

end Triple

end Unchecked

def Dimensions.toTriple (d : Dimensions) : Unchecked.Triple :=
  ⟨d.physical.toValue, d.algebraic.toValue, d.symbolic.toValue⟩

namespace Unchecked.Triple

variable (d d' : Dimensions)

theorem get_toTriple (ns : Namespace) : d.toTriple.get ns = (d.get ns).toValue := by
  cases ns <;> rfl

theorem ofMaps_toValue (a b c : DimensionMap) :
    ofMaps a.toValue b.toValue c.toValue = .ok (Dimensions.toTriple ⟨a, b, c⟩) := by
  unfold ofMaps
  rw [normalized_toValue, normalized_toValue, normalized_toValue]
  rfl

theorem mul_toTriple : d.toTriple.mul d'.toTriple = .ok (d * d').toTriple := by
  unfold mul combine Dimensions.toTriple
  rw [add_toValue, add_toValue, add_toValue]
  exact ofMaps_toValue _ _ _

theorem div_toTriple : d.toTriple.div d'.toTriple = .ok (d / d').toTriple := by
  unfold div combine Dimensions.toTriple
  rw [quotient_toValue, quotient_toValue, quotient_toValue]
  exact ofMaps_toValue _ _ _

theorem powBy_toTriple (n : Value) :
    d.toTriple.powBy n = (d.powBy n).map Dimensions.toTriple := by
  unfold powBy Dimensions.powBy Dimensions.toTriple
  rw [multiple_toValue, multiple_toValue, multiple_toValue]
  cases n.equals (.integer 0) with
  | error e => rfl
  | ok isZero =>
    cases isZero with
    | true => rfl
    | false =>
      cases d.physical.scaleBy n with
      | error e => rfl
      | ok physical =>
        cases d.algebraic.scaleBy n with
        | error e => rfl
        | ok algebraic =>
          cases d.symbolic.scaleBy n with
          | error e => rfl
          | ok symbolic => exact ofMaps_toValue physical algebraic symbolic

theorem equals_toTriple : d.toTriple.equals d'.toTriple = .ok (d.agrees d') := by
  unfold equals Dimensions.toTriple Dimensions.agrees
  rw [agree_toValue, agree_toValue, agree_toValue]
  cases d.physical.agrees d'.physical <;> cases d.algebraic.agrees d'.algebraic <;> rfl

theorem isDimensionless_toTriple : d.toTriple.isDimensionless = d.isDimensionless := by
  unfold isDimensionless Dimensions.isDimensionless Dimensions.toTriple
  rw [isVacant_toValue, isVacant_toValue, isVacant_toValue]

theorem exponent_toTriple (ns : Namespace) (s : String) :
    d.toTriple.exponent ns s = .integer (d.exponent ns s) := by
  rw [exponent, get_toTriple, exponentAt_toValue]
  rfl

theorem isCanonical_toTriple : d.toTriple.IsCanonical := fun ns =>
  ⟨(d.get ns).entries.map toEntry, get_toTriple d ns, canonical_toEntry (d.get ns)⟩

theorem hashKey_toTriple_of_agrees (h : d.agrees d' = true) :
    d.toTriple.hashKey = d'.toTriple.hashKey := by
  funext ns
  rw [hashKey, hashKey, get_toTriple, get_toTriple]
  exact itemSet_eq_of_agrees _ _ ((Dimensions.agrees_iff_get d d').mp h ns)

end Unchecked.Triple

end QuantityCalculus
