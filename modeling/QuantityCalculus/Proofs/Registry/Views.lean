import Mathlib.Data.List.Sort
import Mathlib.Data.String.Basic
import QuantityCalculus.Proofs.Registry.Run

/-!
# Look-ups and listings

A registry can be asked for one name or listed as a whole. The answers fit together because
no name ever has both a definition and a way elsewhere: a listed name leads to itself, and a
name that leads to another one leads no further.
-/
namespace QuantityCalculus

namespace Registry

variable {r : Registry} {x canonical : String}

/-- What a registry answers for one name and what it lists are the same. -/
structure ViewsAgree (r : Registry) : Prop where
  apart : ∀ x, ¬(r.definitions.contains x = true ∧ r.aliases.contains x = true)
  ascending : r.names.Pairwise (· < ·)
  length_names : r.names.length = r.size
  keys : ∀ x, x ∈ r.names ↔ x ∈ r.definitions.rows.map Prod.fst
  canonicalName_listed : ∀ x ∈ r.names, r.canonicalName? x = some x
  definition_listed : ∀ x ∈ r.names, ∀ d, r.get? x = some d ↔ (x, d) ∈ r.definitions.rows
  canonicalName_idem : ∀ x canonical, r.canonicalName? x = some canonical →
    r.canonicalName? canonical = some canonical
  definition_canonical : ∀ x canonical, r.canonicalName? x = some canonical →
    r.get? x = r.get? canonical

theorem names_perm (r : Registry) : r.names.Perm r.definitions.names := List.mergeSort_perm _ _

theorem names_ascending (r : Registry) : r.names.Pairwise (· < ·) := by
  have hsorted : r.names.Pairwise (· ≤ ·) := List.pairwise_mergeSort' (· ≤ ·) _
  have hnodup : r.names.Nodup := r.names_perm.nodup_iff.mpr r.definitions.nodup
  exact hsorted.imp₂ (fun _ _ hle hne => lt_of_le_of_ne hle hne) hnodup

theorem length_names (r : Registry) : r.names.length = r.size := by
  rw [r.names_perm.length_eq, Table.names, List.length_map]
  rfl

theorem mem_names_iff (r : Registry) (x : String) :
    x ∈ r.names ↔ r.definitions.contains x = true := by
  rw [r.names_perm.mem_iff]
  exact r.definitions.mem_names_iff x

theorem canonicalName?_eq_some_iff :
    r.canonicalName? x = some canonical ↔
      r.target x = canonical ∧ r.definitions.contains canonical = true := by
  unfold canonicalName?
  constructor
  · intro h
    split at h
    · rename_i hdefined
      cases h
      exact ⟨rfl, hdefined⟩
    · cases h
  · rintro ⟨rfl, hdefined⟩
    rw [if_pos hdefined]

namespace Apart

theorem target_of_contains (h : r.Apart) (hdefined : r.definitions.contains x = true) :
    r.target x = x := by
  rw [target, h x hdefined]
  rfl

theorem get?_of_contains (h : r.Apart) (hdefined : r.definitions.contains x = true) :
    r.get? x = r.definitions.get? x := by
  rw [get?, h.target_of_contains hdefined]

theorem not_both (h : r.Apart) (x : String) :
    ¬(r.definitions.contains x = true ∧ r.aliases.contains x = true) := by
  rintro ⟨hdefined, halias⟩
  rw [Table.contains, h x hdefined] at halias
  cases halias

theorem viewsAgree (h : r.Apart) : r.ViewsAgree where
  apart := h.not_both
  ascending := r.names_ascending
  length_names := r.length_names
  keys x := r.names_perm.mem_iff
  canonicalName_listed x hx := by
    have hdefined := (r.mem_names_iff x).mp hx
    exact canonicalName?_eq_some_iff.mpr ⟨h.target_of_contains hdefined, hdefined⟩
  definition_listed x hx d := by
    rw [h.get?_of_contains ((r.mem_names_iff x).mp hx)]
    exact r.definitions.get?_eq_some_iff x d
  canonicalName_idem x canonical hx := by
    obtain ⟨-, hdefined⟩ := canonicalName?_eq_some_iff.mp hx
    exact canonicalName?_eq_some_iff.mpr ⟨h.target_of_contains hdefined, hdefined⟩
  definition_canonical x canonical hx := by
    obtain ⟨htarget, hdefined⟩ := canonicalName?_eq_some_iff.mp hx
    rw [h.get?_of_contains hdefined, get?, htarget]

end Apart

/-- Whatever a registry was asked to do, its look-ups and its listings agree. -/
theorem look_ups_agree_with_listings (start : Start) (requests : List RegistryRequest) :
    (start.registry.run requests).ViewsAgree :=
  (apart_run start.apart requests).viewsAgree

end Registry

end QuantityCalculus
