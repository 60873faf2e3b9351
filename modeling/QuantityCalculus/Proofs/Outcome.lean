import Mathlib.Data.List.Forall2
import Mathlib.Data.List.Perm.Basic

/-!
# Outcomes

A chain of steps succeeds exactly if every step does. What a successful step yields is
stated as a property of its result, and such statements are chained like the steps. Two
chains correspond if their steps do: both succeed with related results or fail alike.
-/
namespace QuantityCalculus

variable {ε α β γ : Type} {x : Except ε α}

theorem ok_bind (a : α) (f : α → Except ε β) : (Except.ok a >>= f) = f a := rfl

theorem bind_eq_ok_iff {f : α → Except ε β} {b : β} :
    x >>= f = .ok b ↔ ∃ a, x = .ok a ∧ f a = .ok b := by
  cases x with
  | error e =>
    constructor
    · intro h
      cases h
    · rintro ⟨a, h, -⟩
      cases h
  | ok a =>
    constructor
    · intro h
      exact ⟨a, rfl, h⟩
    · rintro ⟨a', h, hf⟩
      cases h
      exact hf

theorem bind_ok_eq_map {f : α → β} : (x >>= fun a => .ok (f a)) = x.map f := by
  cases x <;> rfl

theorem bind_ok_eq_error_iff {f : α → β} {e : ε} :
    (x >>= fun a => .ok (f a)) = .error e ↔ x = .error e := by
  cases x with
  | error e' =>
    constructor
    · intro h
      cases h
      rfl
    · intro h
      cases h
      rfl
  | ok a =>
    constructor
    · intro h
      cases h
    · intro h
      cases h

theorem map_bind {f : α → Except ε β} {g : β → γ} :
    (x >>= f).map g = x >>= fun a => (f a).map g := by
  cases x <;> rfl

theorem map_eq_ok_iff {f : α → β} {b : β} : x.map f = .ok b ↔ ∃ a, x = .ok a ∧ f a = b := by
  cases x with
  | error e =>
    constructor
    · intro h
      cases h
    · rintro ⟨a, h, -⟩
      cases h
  | ok a =>
    constructor
    · intro h
      exact ⟨a, rfl, Except.ok.inj h⟩
    · rintro ⟨a', h, rfl⟩
      cases h
      rfl

theorem map_eq_error_iff {f : α → β} {e : ε} : x.map f = .error e ↔ x = .error e := by
  rw [← bind_ok_eq_map]
  exact bind_ok_eq_error_iff

theorem mapM_eq_ok_map {f : α → Except ε β} {g : α → β} {items : List α}
    (h : ∀ v ∈ items, f v = .ok (g v)) : items.mapM f = .ok (items.map g) := by
  induction items with
  | nil => rfl
  | cons v rest ih =>
    rw [List.mapM_cons, h v List.mem_cons_self, ih fun w hw => h w (List.mem_cons_of_mem v hw)]
    rfl

theorem mapM_eq_ok_iff {f : α → Except ε β} {items : List α} {out : List β} :
    items.mapM f = .ok out ↔ List.Forall₂ (fun v w => f v = .ok w) items out := by
  induction items generalizing out with
  | nil =>
    rw [List.forall₂_nil_left_iff, List.mapM_nil]
    exact ⟨fun h => (Except.ok.inj h).symm, fun h => h ▸ rfl⟩
  | cons v rest ih =>
    rw [List.mapM_cons, List.forall₂_cons_left_iff, bind_eq_ok_iff]
    refine exists_congr fun w => ?_
    constructor
    · rintro ⟨hw, h⟩
      obtain ⟨others, hothers, h⟩ := bind_eq_ok_iff.mp h
      exact ⟨others, hw, ih.mp hothers, (Except.ok.inj h).symm⟩
    · rintro ⟨others, hw, hothers, rfl⟩
      exact ⟨hw, bind_eq_ok_iff.mpr ⟨others, ih.mpr hothers, rfl⟩⟩

theorem exists_mapM_iff {f : α → Except ε β} {items : List α} :
    (∃ out, items.mapM f = .ok out) ↔ ∀ v ∈ items, ∃ w, f v = .ok w := by
  simp only [mapM_eq_ok_iff]
  induction items with
  | nil => simp
  | cons v rest ih =>
    rw [List.forall_mem_cons, ← ih]
    constructor
    · rintro ⟨out, h⟩
      cases h with
      | cons hv hrest => exact ⟨⟨_, hv⟩, _, hrest⟩
    · rintro ⟨⟨w, hv⟩, out, hrest⟩
      exact ⟨w :: out, .cons hv hrest⟩

theorem exists_mem_of_mapM {f : α → Except ε β} {items : List α} {out : List β} {v : α}
    (h : items.mapM f = .ok out) (hv : v ∈ items) : ∃ w ∈ out, f v = .ok w := by
  obtain ⟨i, hi, rfl⟩ := List.mem_iff_getElem.mp hv
  have hwalk := mapM_eq_ok_iff.mp h
  exact ⟨_, List.get_mem out ⟨i, hwalk.length_eq ▸ hi⟩, hwalk.get hi (hwalk.length_eq ▸ hi)⟩

/-- A walk fails with the error of the first item whose step fails. -/
def FirstRefusal (f : α → Except ε β) (items : List α) (e : ε) : Prop :=
  ∃ passed v rest, items = passed ++ v :: rest ∧ (∀ w ∈ passed, ∃ b, f w = .ok b) ∧ f v = .error e

theorem FirstRefusal.cons {f : α → Except ε β} {v : α} {b : β} {items : List α} {e : ε}
    (hv : f v = .ok b) (h : FirstRefusal f items e) : FirstRefusal f (v :: items) e := by
  obtain ⟨passed, w, rest, rfl, hpassed, hw⟩ := h
  exact ⟨v :: passed, w, rest, rfl, List.forall_mem_cons.mpr ⟨⟨b, hv⟩, hpassed⟩, hw⟩

theorem firstRefusal_of_mapM {f : α → Except ε β} {items : List α} {e : ε}
    (h : items.mapM f = .error e) : FirstRefusal f items e := by
  induction items with
  | nil => cases h
  | cons v rest ih =>
    rw [List.mapM_cons] at h
    cases hv : f v with
    | error e' =>
      rw [hv] at h
      cases h
      exact ⟨[], v, rest, rfl, List.forall_mem_nil _, hv⟩
    | ok b =>
      rw [hv] at h
      exact (ih (bind_ok_eq_error_iff.mp h)).cons hv

theorem mapM_eq_error_iff {f : α → Except ε β} {items : List α} {e : ε} :
    items.mapM f = .error e ↔ FirstRefusal f items e := by
  constructor
  · exact firstRefusal_of_mapM
  · rintro ⟨passed, v, rest, rfl, hpassed, hv⟩
    induction passed with
    | nil =>
      rw [List.nil_append, List.mapM_cons, hv]
      rfl
    | cons w others ih =>
      obtain ⟨⟨b, hb⟩, hothers⟩ := List.forall_mem_cons.mp hpassed
      rw [List.cons_append, List.mapM_cons, hb]
      exact bind_ok_eq_error_iff.mpr (ih hothers)

theorem firstRefusal_cons_iff {f : α → Except ε β} {v : α} {items : List α} {e : ε} :
    FirstRefusal f (v :: items) e ↔
      f v = .error e ∨ (∃ b, f v = .ok b) ∧ FirstRefusal f items e := by
  rw [← mapM_eq_error_iff, ← mapM_eq_error_iff, List.mapM_cons]
  cases f v with
  | error e' => simp [bind, Except.bind]
  | ok b => exact bind_ok_eq_error_iff.trans (by simp)

/-- The same items in another order are walked with the same success. -/
theorem exists_mapM_of_perm {f : α → Except ε β} {items others : List α} {out : List β}
    (hperm : items.Perm others) (h : items.mapM f = .ok out) :
    ∃ out', others.mapM f = .ok out' ∧ out'.Perm out := by
  obtain ⟨out', hout', hperm'⟩ := List.perm_comp_forall₂ hperm.symm (mapM_eq_ok_iff.mp h)
  exact ⟨out', mapM_eq_ok_iff.mpr hout', hperm'⟩

theorem mapM_map_result {f : α → Except ε β} {g : β → γ} {items : List α} :
    (items.mapM fun v => (f v).map g) = (items.mapM f).map (List.map g) := by
  induction items with
  | nil => rfl
  | cons v rest ih =>
    rw [List.mapM_cons, List.mapM_cons, ih]
    cases f v with
    | error e => rfl
    | ok w => cases rest.mapM f <;> rfl

/-- The step succeeds, and its result has the property. -/
def Yields (x : Except ε α) (q : α → Prop) : Prop := ∃ a, x = .ok a ∧ q a

namespace Yields

variable {q q' : α → Prop} {p : β → Prop}

theorem ok {a : α} (h : q a) : Yields (.ok a : Except ε α) q := ⟨a, rfl, h⟩

theorem bind {f : α → Except ε β} (hx : Yields x q) (hf : ∀ a, q a → Yields (f a) p) :
    Yields (x >>= f) p := by
  obtain ⟨a, hxa, ha⟩ := hx
  obtain ⟨b, hfb, hb⟩ := hf a ha
  exact ⟨b, bind_eq_ok_iff.mpr ⟨a, hxa, hfb⟩, hb⟩

theorem mono (hx : Yields x q) (h : ∀ a, q a → q' a) : Yields x q' := by
  obtain ⟨a, hxa, ha⟩ := hx
  exact ⟨a, hxa, h a ha⟩

theorem and (hx : Yields x q) (hx' : Yields x q') : Yields x fun a => q a ∧ q' a := by
  obtain ⟨a, hxa, ha⟩ := hx
  obtain ⟨b, hxb, hb⟩ := hx'
  cases hxa.symm.trans hxb
  exact ⟨a, hxa, ha, hb⟩

theorem ite {c : Prop} [Decidable c] {y : Except ε α} (hx : c → Yields x q)
    (hy : ¬c → Yields y q) : Yields (if c then x else y) q := by
  split
  · exact hx ‹c›
  · exact hy ‹¬c›

end Yields

/-- Both succeed, with related results, or both fail, with the same error. -/
inductive Corresponds (R : α → β → Prop) : Except ε α → Except ε β → Prop where
  | ok {a : α} {b : β} (h : R a b) : Corresponds R (.ok a) (.ok b)
  | error (e : ε) : Corresponds R (.error e) (.error e)

namespace Corresponds

variable {δ : Type} {R : α → β → Prop} {S : γ → δ → Prop} {y : Except ε β}

theorem exists_ok_iff (h : Corresponds R x y) : (∃ a, x = .ok a) ↔ ∃ b, y = .ok b := by
  cases h with
  | ok hab => exact ⟨fun _ => ⟨_, rfl⟩, fun _ => ⟨_, rfl⟩⟩
  | error e => exact ⟨fun ⟨_, h⟩ => (nomatch h), fun ⟨_, h⟩ => (nomatch h)⟩

/-- What is there before a step that fails stays. -/
theorem getD {a : α} {b : β} (h : Corresponds R x y) (hab : R a b) :
    R (x.toOption.getD a) (y.toOption.getD b) := by
  cases h with
  | ok hab => exact hab
  | error e => exact hab

theorem refl {R : α → α → Prop} (hR : ∀ a, R a a) (x : Except ε α) : Corresponds R x x := by
  cases x with
  | ok a => exact .ok (hR a)
  | error e => exact .error e

theorem bind {f : α → Except ε γ} {g : β → Except ε δ} (h : Corresponds R x y)
    (hstep : ∀ a b, R a b → Corresponds S (f a) (g b)) : Corresponds S (x >>= f) (y >>= g) := by
  cases h with
  | ok hab => exact hstep _ _ hab
  | error e => exact .error e

end Corresponds

end QuantityCalculus
