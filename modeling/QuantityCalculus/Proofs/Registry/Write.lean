import Mathlib.Data.List.Basic
import QuantityCalculus.Registry.Basic

/-!
# Writing to a registry

A write gives a definition to a name and makes bynames lead to it. What the two tables
hold afterwards is described here name by name, for both kinds of writes at once, so that
nothing later has to look at how the tables are filled.
-/
namespace QuantityCalculus

namespace Table

variable {α : Type} (t : Table α) (name other : String) (content : α)

theorem contains_eq_true_iff : t.contains name = true ↔ ∃ content, t.get? name = some content :=
  Option.isSome_iff_exists

@[simp] theorem contains_put :
    (t.put name content).contains other = true ↔ other = name ∨ t.contains other = true := by
  unfold contains
  rw [get?_put]
  split
  · rename_i heq
    simp [heq]
  · rename_i hne
    simp [hne]

@[simp] theorem contains_erase :
    (t.erase name).contains other = true ↔ other ≠ name ∧ t.contains other = true := by
  unfold contains
  rw [get?_erase]
  split
  · rename_i heq
    simp [heq]
  · rename_i hne
    simp [hne]

theorem mem_rows_of_findRow {rows : List (String × α)} (h : findRow name rows = some content) :
    (name, content) ∈ rows := by
  induction rows with
  | nil => cases h
  | cons row rest ih =>
    unfold findRow at h
    split at h
    · rename_i heq
      cases h
      cases heq
      exact List.mem_cons_self
    · exact List.mem_cons_of_mem _ (ih h)

theorem findRow_isSome_iff {rows : List (String × α)} :
    (findRow name rows).isSome = true ↔ name ∈ rows.map Prod.fst := by
  induction rows with
  | nil => simp [findRow]
  | cons row rest ih =>
    unfold findRow
    split
    · rename_i heq
      simp [heq]
    · rename_i hne
      simp [ih, Ne.symm hne]

theorem mem_rows_of_get? {t : Table α} {name : String} {content : α}
    (h : t.get? name = some content) : (name, content) ∈ t.rows :=
  mem_rows_of_findRow name content h

theorem mem_names_iff : name ∈ t.names ↔ t.contains name = true :=
  (findRow_isSome_iff name).symm

theorem findRow_of_mem {rows : List (String × α)} (hnodup : (rows.map Prod.fst).Nodup)
    (h : (name, content) ∈ rows) : findRow name rows = some content := by
  induction rows with
  | nil => cases h
  | cons row rest ih =>
    simp only [List.map_cons, List.nodup_cons] at hnodup
    unfold findRow
    rcases List.mem_cons.mp h with rfl | h
    · rw [if_pos rfl]
    · have hne : row.1 ≠ name := fun heq => hnodup.1 (heq ▸ List.mem_map_of_mem h)
      rw [if_neg hne, ih hnodup.2 h]

theorem get?_eq_some_iff : t.get? name = some content ↔ (name, content) ∈ t.rows :=
  ⟨mem_rows_of_get?, findRow_of_mem name content t.nodup⟩

end Table

namespace Registry

variable {r after : Registry} {name : String} {bynames : List String}

/-- What a write leaves behind: bynames lead to the name and have no definition, the name
has one unless it is a byname itself, and all other names are as before. -/
structure Written (r : Registry) (name : String) (bynames : List String) (after : Registry) :
    Prop where
  definitions : ∀ x, after.definitions.contains x = true ↔
    x ∉ bynames ∧ (x = name ∨ r.definitions.contains x = true)
  aliases : ∀ x, after.aliases.get? x =
    if x ∈ bynames then some name else if x = name then none else r.aliases.get? x

/-- No name has both a definition and a way elsewhere. -/
def Apart (r : Registry) : Prop :=
  ∀ x, r.definitions.contains x = true → r.aliases.get? x = none

theorem definitions_redirectAll (r : Registry) (name : String) (bynames : List String) (x : String) :
    (bynames.foldl (fun r byname => r.redirect byname name) r).definitions.get? x =
      if x ∈ bynames then none else r.definitions.get? x := by
  induction bynames generalizing r with
  | nil => simp
  | cons byname rest ih =>
    rw [List.foldl_cons, ih]
    simp only [redirect, Table.get?_erase, List.mem_cons]
    by_cases hrest : x ∈ rest
    · simp [hrest]
    · simp [hrest]

theorem contains_redirectAll (r : Registry) (name : String) (bynames : List String) (x : String) :
    (bynames.foldl (fun r byname => r.redirect byname name) r).definitions.contains x = true ↔
      x ∉ bynames ∧ r.definitions.contains x = true := by
  unfold Table.contains
  rw [definitions_redirectAll]
  split
  · rename_i hx
    simp [hx]
  · rename_i hx
    simp [hx]

theorem get?_redirectAll (r : Registry) (name : String) (bynames : List String) (x : String) :
    (bynames.foldl (fun r byname => r.redirect byname name) r).aliases.get? x =
      if x ∈ bynames then some name else r.aliases.get? x := by
  induction bynames generalizing r with
  | nil => simp
  | cons byname rest ih =>
    rw [List.foldl_cons, ih]
    simp only [redirect, Table.get?_put, List.mem_cons]
    by_cases hrest : x ∈ rest
    · simp [hrest]
    · simp [hrest]

theorem written_write (r : Registry) (name : String) (d : Definition) (bynames : List String) :
    Written r name bynames (r.write name d bynames) := by
  constructor
  · intro x
    rw [write, contains_redirectAll]
    simp
  · intro x
    rw [write, get?_redirectAll]
    simp

/-- To redirect a byname to a defined name is a write without a definition. -/
theorem written_redirect (h : r.Apart) {byname : String}
    (hname : r.definitions.contains name = true) :
    Written r name [byname] (r.redirect byname name) := by
  constructor
  · intro x
    simp only [redirect, Table.contains_erase, List.mem_singleton]
    constructor
    · rintro ⟨hne, hx⟩
      exact ⟨hne, .inr hx⟩
    · rintro ⟨hne, rfl | hx⟩
      · exact ⟨hne, hname⟩
      · exact ⟨hne, hx⟩
  · intro x
    simp only [redirect, Table.get?_put, List.mem_singleton]
    by_cases hx : x = name
    · simp [hx, h name hname]
    · simp [hx]

theorem Written.apart (hw : Written r name bynames after) (h : r.Apart) : after.Apart := by
  intro x hx
  obtain ⟨hbyname, hx⟩ := (hw.definitions x).mp hx
  rw [hw.aliases, if_neg hbyname]
  split
  · rfl
  · rename_i hne
    exact h x (hx.resolve_left hne)

theorem Written.contains_aliases (hw : Written r name bynames after) (x : String) :
    after.aliases.contains x = true ↔
      x ∈ bynames ∨ x ≠ name ∧ r.aliases.contains x = true := by
  unfold Table.contains
  rw [hw.aliases]
  by_cases hbyname : x ∈ bynames
  · simp [hbyname]
  · by_cases hx : x = name
    · simp [hx, hx ▸ hbyname]
    · simp [hbyname, hx]

theorem isTaken_iff (r : Registry) (x : String) :
    r.isTaken x = true ↔ r.definitions.contains x = true ∨ r.aliases.contains x = true := by
  rw [isTaken, Bool.or_eq_true]

theorem Written.isTaken_iff (hw : Written r name bynames after) (x : String) :
    after.isTaken x = true ↔ x = name ∨ x ∈ bynames ∨ r.isTaken x = true := by
  rw [Registry.isTaken_iff, Registry.isTaken_iff, hw.definitions, hw.contains_aliases]
  by_cases hbyname : x ∈ bynames
  · simp [hbyname]
  · by_cases hx : x = name
    · simp [hx, hx ▸ hbyname]
    · simp [hbyname, hx]

end Registry

end QuantityCalculus
