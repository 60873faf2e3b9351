/-!
# Ordered tables

A table holds at most one content under each name and keeps its names in order of
arrival: writing under a known name keeps the place, and a name that was erased and
comes back goes to the end.
-/
namespace QuantityCalculus

variable {α : Type}

/-- Write under a name: in place if it is known, at the end otherwise. -/
def putRow (name : String) (content : α) : List (String × α) → List (String × α)
  | [] => [(name, content)]
  | (n, c) :: rest =>
    if n = name then (n, content) :: rest else (n, c) :: putRow name content rest

theorem keys_putRow_of_mem {name : String} (content : α) {rows : List (String × α)}
    (h : name ∈ rows.map Prod.fst) : (putRow name content rows).map Prod.fst = rows.map Prod.fst := by
  induction rows with
  | nil => simp at h
  | cons row rest ih =>
    simp only [putRow]
    split
    · rfl
    · rename_i hne
      simp only [List.map_cons, List.mem_cons] at h ⊢
      rw [ih (h.resolve_left fun heq => hne heq.symm)]

theorem keys_putRow_of_notMem {name : String} (content : α) {rows : List (String × α)}
    (h : name ∉ rows.map Prod.fst) :
    (putRow name content rows).map Prod.fst = rows.map Prod.fst ++ [name] := by
  induction rows with
  | nil => rfl
  | cons row rest ih =>
    simp only [List.map_cons, List.mem_cons, not_or] at h
    rw [putRow, if_neg (Ne.symm h.1)]
    simp [ih h.2]

theorem nodup_putRow (name : String) (content : α) {rows : List (String × α)}
    (h : (rows.map Prod.fst).Nodup) : ((putRow name content rows).map Prod.fst).Nodup := by
  by_cases hmem : name ∈ rows.map Prod.fst
  · rwa [keys_putRow_of_mem content hmem]
  · rw [keys_putRow_of_notMem content hmem, List.nodup_append]
    exact ⟨h, by simp, fun a ha b hb => by
      rw [List.mem_singleton.mp hb]
      exact fun heq => hmem (heq ▸ ha)⟩

def findRow (name : String) : List (String × α) → Option α
  | [] => none
  | (n, c) :: rest => if n = name then some c else findRow name rest

/-- Rows by name, in order of arrival. -/
structure Table (α : Type) where
  rows : List (String × α)
  nodup : (rows.map Prod.fst).Nodup

namespace Table

def empty : Table α := ⟨[], by simp⟩

instance : Inhabited (Table α) := ⟨empty⟩

def get? (t : Table α) (name : String) : Option α := findRow name t.rows

def contains (t : Table α) (name : String) : Bool := (t.get? name).isSome

def put (t : Table α) (name : String) (content : α) : Table α :=
  ⟨putRow name content t.rows, nodup_putRow name content t.nodup⟩

def erase (t : Table α) (name : String) : Table α :=
  ⟨t.rows.filter fun row => row.1 != name, t.nodup.sublist (List.filter_sublist.map _)⟩

def size (t : Table α) : Nat := t.rows.length

def names (t : Table α) : List String := t.rows.map Prod.fst

@[simp] theorem get?_empty (name : String) : (empty : Table α).get? name = none := rfl

@[simp] theorem get?_put (t : Table α) (name other : String) (content : α) :
    (t.put name content).get? other = if other = name then some content else t.get? other := by
  obtain ⟨rows, _⟩ := t
  simp only [get?, put]
  induction rows with
  | nil => simp [putRow, findRow, eq_comm]
  | cons row rest ih =>
    have ih := ih (by simp_all)
    simp only [putRow]
    split
    · rename_i heq
      by_cases h : other = name
      · simp [findRow, h, heq]
      · have : row.1 ≠ other := fun e => h (e.symm.trans heq)
        simp [findRow, h, this]
    · rename_i hne
      simp only [findRow, ih]
      by_cases h : row.1 = other
      · have : other ≠ name := fun e => hne (h.trans e)
        simp [h, this]
      · simp [h]

@[simp] theorem get?_erase (t : Table α) (name other : String) :
    (t.erase name).get? other = if other = name then none else t.get? other := by
  obtain ⟨rows, _⟩ := t
  simp only [get?, erase]
  induction rows with
  | nil => simp [findRow]
  | cons row rest ih =>
    have ih := ih (by simp_all)
    rw [List.filter_cons]
    by_cases hrow : row.1 = name
    · rw [if_neg (by simp [hrow]), ih]
      by_cases h : other = name
      · simp [h]
      · have : row.1 ≠ other := fun e => h (e.symm.trans hrow)
        simp [findRow, h, this]
    · rw [if_pos (by simp [hrow])]
      simp only [findRow, ih]
      by_cases h : row.1 = other
      · have : other ≠ name := fun e => hrow (h.trans e)
        simp [h, this]
      · simp [h]

end Table

end QuantityCalculus
