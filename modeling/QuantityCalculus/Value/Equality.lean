import QuantityCalculus.Number.Comparison
import QuantityCalculus.Value.Basic

/-!
# Equality of values

Values are compared by their contents: numbers by exact value, lists item by item, maps
without regard to order. Comparing a signalling number with a number is refused, but
within lists and maps nothing is compared with itself: a number that equals nothing
still is the same item wherever it is used. Keys of maps are unique.
-/
namespace QuantityCalculus

namespace Value

def isSame : Value → Value → Bool
  | number a, number b => a.isSame b
  | _, _ => false

/-- Whether two hashable values are one key. -/
def isSameKey : Value → Value → Bool
  | absent, absent => true
  | number a, number b => a.isSame b || a.equals b
  | text s, text t => s == t
  | _, _ => false

def entryAt? (key : Value) (entries : List (Value × Value)) : Option (Value × Value) :=
  entries.find? fun e => e.1.isSameKey key

mutual

def equals : Value → Value → Except Error Bool
  | absent, absent => .ok true
  | number a, number b => a.compareEqual b
  | text s, text t => .ok (s == t)
  | list items, list others =>
    if items.length = others.length then itemsEqual items others else .ok false
  | map entries, map others =>
    if entries.length = others.length then entriesEqual entries others else .ok false
  | _, _ => .ok false

/-- The items are the same or equal, up to the first two that are not. -/
def itemsEqual : List Value → List Value → Except Error Bool
  | [], [] => .ok true
  | v :: rest, w :: others => do
    if v.isSame w then itemsEqual rest others
    else if ← v.equals w then itemsEqual rest others
    else .ok false
  | _, _ => .ok false

/-- The other entries have every key, with the same or an equal value. -/
def entriesEqual : List (Value × Value) → List (Value × Value) → Except Error Bool
  | [], _ => .ok true
  | (k, v) :: rest, others => do
    match entryAt? k others with
    | some e =>
      if v.isSame e.2 then entriesEqual rest others
      else if ← v.equals e.2 then entriesEqual rest others
      else .ok false
    | none => .ok false

end

/-- Write an entry of a map: the same key keeps its place. -/
def insertEntry (key value : Value) : List (Value × Value) → List (Value × Value)
  | [] => [(key, value)]
  | (k, v) :: rest =>
    if k.isSameKey key then (k, value) :: rest else (k, v) :: insertEntry key value rest

def ofEntries (entries : List (Value × Value)) : Except Error Value :=
  if entries.all fun e => e.1.isHashable then
    .ok (map (entries.foldl (fun written e => insertEntry e.1 e.2 written) []))
  else
    .error .operandType

end Value

end QuantityCalculus
