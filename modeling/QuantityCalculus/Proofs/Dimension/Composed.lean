import QuantityCalculus.Proofs.Dimension.Triples

/-!
# Composed dimensions

Dimensions are composed from unchecked maps by products, quotients and powers. Computed on maps
of values, a composition starts from whatever maps are accepted and ends in canonical ones. So
such triples are equal exactly if all exponents agree, equal ones have equal hash keys, and one
is dimensionless exactly if it equals the empty triple. They are the dimensions that the
composition evaluates to.
-/
namespace QuantityCalculus

inductive Composition where
  | maps (physical algebraic symbolic : Value)
  | mul (a b : Composition)
  | div (a b : Composition)
  | pow (a : Composition) (n : Value)

namespace Composition

def evaluate : Composition → Except Error Dimensions
  | maps physical algebraic symbolic => Dimensions.ofValues physical algebraic symbolic
  | mul a b => do .ok ((← a.evaluate) * (← b.evaluate))
  | div a b => do .ok ((← a.evaluate) / (← b.evaluate))
  | pow a n => do (← a.evaluate).powBy n

def compute : Composition → Except Error Unchecked.Triple
  | maps physical algebraic symbolic => Unchecked.Triple.ofMaps physical algebraic symbolic
  | mul a b => do (← a.compute).mul (← b.compute)
  | div a b => do (← a.compute).div (← b.compute)
  | pow a n => do (← a.compute).powBy n

def HasUniqueKeys : Composition → Prop
  | maps physical algebraic symbolic =>
    physical.HasUniqueKeys ∧ algebraic.HasUniqueKeys ∧ symbolic.HasUniqueKeys
  | mul a b | div a b => a.HasUniqueKeys ∧ b.HasUniqueKeys
  | pow a _ => a.HasUniqueKeys

open Unchecked

variable {c c' : Composition} {t u : Triple}

section Steps

variable {f : Triple → Triple → Except Error Triple} {op : Dimensions → Dimensions → Dimensions}
  (hf : ∀ d d' : Dimensions, f d.toTriple d'.toTriple = .ok (op d d').toTriple)

include hf

theorem exists_toTriple_of_step {x y : Except Error Triple}
    (hx : ∀ {t}, x = .ok t → ∃ d : Dimensions, t = d.toTriple)
    (hy : ∀ {t}, y = .ok t → ∃ d : Dimensions, t = d.toTriple)
    (h : (do f (← x) (← y)) = .ok t) : ∃ d : Dimensions, t = d.toTriple := by
  obtain ⟨left, hleft, h⟩ := bind_eq_ok_iff.mp h
  obtain ⟨right, hright, h⟩ := bind_eq_ok_iff.mp h
  obtain ⟨d, rfl⟩ := hx hleft
  obtain ⟨d', rfl⟩ := hy hright
  exact ⟨op d d', Except.ok.inj (h.symm.trans (hf d d'))⟩

theorem step_map_toTriple (x y : Except Error Dimensions) :
    (do f (← x.map Dimensions.toTriple) (← y.map Dimensions.toTriple)) =
      (do .ok (op (← x) (← y)) : Except Error Dimensions).map Dimensions.toTriple := by
  cases x with
  | error e => rfl
  | ok d =>
    cases y with
    | error e => rfl
    | ok d' => exact hf d d'

end Steps

/-- Whatever it starts from, a composition ends in the maps of some dimensions. -/
theorem exists_toTriple_of_compute (h : c.compute = .ok t) :
    ∃ d : Dimensions, t = d.toTriple := by
  induction c generalizing t with
  | maps physical algebraic symbolic =>
    obtain ⟨p, hp, h⟩ := bind_eq_ok_iff.mp h
    obtain ⟨a, ha, h⟩ := bind_eq_ok_iff.mp h
    obtain ⟨s, hs, h⟩ := bind_eq_ok_iff.mp h
    obtain ⟨p, rfl⟩ := normalized_canonical hp
    obtain ⟨a, rfl⟩ := normalized_canonical ha
    obtain ⟨s, rfl⟩ := normalized_canonical hs
    exact ⟨⟨p, a, s⟩, (Except.ok.inj h).symm⟩
  | mul a b iha ihb => exact exists_toTriple_of_step Triple.mul_toTriple iha ihb h
  | div a b iha ihb => exact exists_toTriple_of_step Triple.div_toTriple iha ihb h
  | pow a n ih =>
    obtain ⟨base, hbase, h⟩ := bind_eq_ok_iff.mp h
    obtain ⟨d, rfl⟩ := ih hbase
    rw [Triple.powBy_toTriple] at h
    obtain ⟨power, -, h⟩ := map_eq_ok_iff.mp h
    exact ⟨power, h.symm⟩

/-- Computing on maps of values is evaluating, with the same entries in the same order or the
same error. -/
theorem compute_eq (h : c.HasUniqueKeys) : c.compute = c.evaluate.map Dimensions.toTriple := by
  induction c with
  | maps physical algebraic symbolic =>
    obtain ⟨hp, ha, hs⟩ := h
    rw [compute, evaluate, Triple.ofMaps, Dimensions.ofValues, normalized_eq hp, normalized_eq ha,
      normalized_eq hs]
    cases DimensionMap.normalize physical with
    | error e => rfl
    | ok p =>
      cases DimensionMap.normalize algebraic with
      | error e => rfl
      | ok a => cases DimensionMap.normalize symbolic <;> rfl
  | mul a b iha ihb =>
    rw [compute, evaluate, iha h.1, ihb h.2]
    exact step_map_toTriple Triple.mul_toTriple a.evaluate b.evaluate
  | div a b iha ihb =>
    rw [compute, evaluate, iha h.1, ihb h.2]
    exact step_map_toTriple Triple.div_toTriple a.evaluate b.evaluate
  | pow a n ih =>
    rw [compute, evaluate, ih h]
    cases a.evaluate with
    | error e => rfl
    | ok d => exact Triple.powBy_toTriple d n

theorem exists_evaluate (hkeys : c.HasUniqueKeys) (h : c.compute = .ok t) :
    ∃ d, c.evaluate = .ok d ∧ t = d.toTriple := by
  rw [compute_eq hkeys] at h
  obtain ⟨d, hd, h⟩ := map_eq_ok_iff.mp h
  exact ⟨d, hd, h.symm⟩

/-- Triples from compositions are canonical. Two of them are compared by their exponents, and equal
ones have equal hash keys. One is dimensionless if it equals the empty triple, which is if it has
no exponents but zero. All this is so of the dimensions that the compositions evaluate to. -/
theorem composed_triples_extensional (c c' : Composition) (h : c.compute = .ok t)
    (h' : c'.compute = .ok u) :
    t.IsCanonical ∧
      (∃ same, t.equals u = .ok same ∧
        (same = true ↔ ∀ ns s, t.exponent ns s = u.exponent ns s) ∧
        (same = true → t.hashKey = u.hashKey)) ∧
      (t.isDimensionless = true ↔ t.equals .dimensionless = .ok true) ∧
      (t.isDimensionless = true ↔ ∀ ns s, t.exponent ns s = .integer 0) ∧
      (c.HasUniqueKeys → c'.HasUniqueKeys → ∃ d d', c.evaluate = .ok d ∧ c'.evaluate = .ok d' ∧
        t = d.toTriple ∧ u = d'.toTriple ∧ t.equals u = .ok (d.agrees d') ∧
        t.isDimensionless = d.isDimensionless) := by
  obtain ⟨d, rfl⟩ := exists_toTriple_of_compute h
  obtain ⟨d', rfl⟩ := exists_toTriple_of_compute h'
  have hexponent : ∀ a b : Dimensions, a.agrees b = true ↔
      ∀ ns s, a.toTriple.exponent ns s = b.toTriple.exponent ns s := by
    intro a b
    simp only [Triple.exponent_toTriple, Dimensions.agrees_iff_exponent, Value.integer,
      Value.number.injEq, Number.integer.injEq]
  have hempty : d.isDimensionless = true ↔ d.agrees .dimensionless = true := by
    simp only [Dimensions.isDimensionless_iff_exponent, Dimensions.agrees_iff_exponent,
      Dimensions.exponent_dimensionless]
  refine ⟨Triple.isCanonical_toTriple d, ⟨d.agrees d', Triple.equals_toTriple d d', hexponent d d',
    Triple.hashKey_toTriple_of_agrees d d'⟩, ?_, ?_, ?_⟩
  · change _ ↔ d.toTriple.equals (Dimensions.toTriple .dimensionless) = _
    rw [Triple.isDimensionless_toTriple, Triple.equals_toTriple, hempty, Except.ok.injEq]
  · rw [Triple.isDimensionless_toTriple, Dimensions.isDimensionless_iff_exponent]
    simp only [Triple.exponent_toTriple, Value.integer, Value.number.injEq, Number.integer.injEq]
  · intro hkeys hkeys'
    obtain ⟨a, ha, heq⟩ := exists_evaluate hkeys h
    obtain ⟨b, hb, heq'⟩ := exists_evaluate hkeys' h'
    refine ⟨a, b, ha, hb, heq, heq', ?_, ?_⟩
    · rw [heq, heq', Triple.equals_toTriple]
    · rw [heq, Triple.isDimensionless_toTriple]

theorem composed_squares_of_speed_equal :
    let metre : Value := .map [(.text "m", .integer 1)]
    let second : Value := .map [(.text "s", .integer 1)]
    let area : Value := .map [(.text "s", .integer 0), (.text "m", .ratio 2)]
    let c : Composition :=
      .div (.maps area .absent .absent) (.pow (.maps second .absent .absent) (.integer 2))
    let c' : Composition :=
      .pow (.div (.maps second .absent .absent) (.maps metre .absent .absent)) (.integer (-2))
    ∃ t u, c.compute = .ok t ∧ c'.compute = .ok u ∧
      t.physical = .map [(.text "m", .integer 2), (.text "s", .integer (-2))] ∧
      u.physical = .map [(.text "s", .integer (-2)), (.text "m", .integer 2)] ∧
      t.equals u = .ok true ∧ t.hashKey = u.hashKey ∧
      ∃ d d', c.evaluate = .ok d ∧ c'.evaluate = .ok d' ∧ d.agrees d' = true := by
  intro metre second area c c'
  have hc : c.compute =
      .ok ⟨.map [(.text "m", .integer 2), (.text "s", .integer (-2))], .map [], .map []⟩ := rfl
  have hc' : c'.compute =
      .ok ⟨.map [(.text "s", .integer (-2)), (.text "m", .integer 2)], .map [], .map []⟩ := rfl
  have hkeys : c.HasUniqueKeys ∧ c'.HasUniqueKeys := by
    simp [c, c', HasUniqueKeys, Value.HasUniqueKeys, area, metre, second]
  obtain ⟨-, ⟨same, hsame, -, hhash⟩, -, -, heval⟩ := composed_triples_extensional c c' hc hc'
  obtain ⟨d, d', hd, hd', -, -, hequals, -⟩ := heval hkeys.1 hkeys.2
  have htrue : same = true := Except.ok.inj (hsame.symm.trans rfl)
  subst htrue
  have hagrees : d.agrees d' = true := Except.ok.inj (hequals.symm.trans hsame)
  exact ⟨_, _, hc, hc', rfl, rfl, hsame, hhash rfl, d, d', hd, hd', hagrees⟩

end Composition

end QuantityCalculus
