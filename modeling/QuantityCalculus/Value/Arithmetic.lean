import QuantityCalculus.Number.Arithmetic
import QuantityCalculus.Number.RatioText
import QuantityCalculus.Value.Equality

/-!
# Arithmetic of values

Numbers compute as numbers. Texts and lists can be joined and repeated; every
other combination is refused. Values are also read here as ratios, as natural
powers and as integer exponents.
-/
namespace QuantityCalculus

open scoped NaturalPowers

namespace Value

def ofNumber (result : Except Error Number) : Except Error Value := result.map number

def add : Value → Value → Except Error Value
  | number a, number b => ofNumber (a.add b)
  | text s, text t => .ok (text (s ++ t))
  | list xs, list ys => .ok (list (xs ++ ys))
  | _, _ => .error .operandType

def sub : Value → Value → Except Error Value
  | number a, number b => ofNumber (a.sub b)
  | _, _ => .error .operandType

def repetitions (a : Number) : Except Error Nat :=
  match a.widen with
  | .integer n => if -2 ^ (63 : Nat) ≤ n ∧ n < 2 ^ (63 : Nat) then .ok n.toNat else .error .overflow
  | _ => .error .operandType

/-- Texts have a size limit of their own, beyond all room. -/
def repeatText (s : String) (a : Number) : Except Error Value := do
  let size := (← repetitions a) * s.length
  if size = 0 then .ok (text "")
  else if 2 ^ (63 : Nat) ≤ size then .error .overflow
  else if roomLimit < size then .error .outOfMemory
  else .ok (text (String.join (List.replicate (size / s.length) s)))

def repeatList (items : List Value) (a : Number) : Except Error Value := do
  let size := (← repetitions a) * items.length
  if size = 0 then .ok (list [])
  else if roomLimit < size then .error .outOfMemory
  else .ok (list (List.replicate (size / items.length) items).flatten)

def mul : Value → Value → Except Error Value
  | number a, number b => ofNumber (a.mul b)
  | text s, number a | number a, text s => repeatText s a
  | list xs, number a | number a, list xs => repeatList xs a
  | _, _ => .error .operandType

def div : Value → Value → Except Error Value
  | number a, number b => ofNumber (a.div b)
  | _, _ => .error .operandType

def pow (v : Value) (k : Nat) : Except Error Value :=
  match v with
  | number a => ofNumber (a.pow k)
  | _ => .error .operandType

/-- The unit of multiplication in the kind of a number; a double for other values. -/
def one : Value → Value
  | number a => number a.one
  | _ => number (.float 1)

def toRatio : Value → Except Error Rat
  | number a => a.toRatio
  | text s => ratioOfText s
  | _ => .error .operandType

def toPower (v : Value) : Except Error Nat := do
  match v with
  | number (.integer n) =>
    if n < 0 then .error (.powerNotNatural (← v.describe)) else .ok n.toNat
  | _ => .error (.powerNotNatural (← v.describe))

def toExponent (v : Value) : Except Error Int := do
  match v with
  | number (.truth _) => .error .booleanExponent
  | number a =>
    match a.toExponent? with
    | some n => .ok n
    | none => .error (.fractionalExponent (← v.describe))
  | _ => .error (.fractionalExponent (← v.describe))

@[simp] theorem toPower_natCast (k : Nat) : (integer k).toPower = .ok k := by
  have h : ¬((k : Int) < 0) := by omega
  simp [toPower, h]

@[simp] theorem toExponent_integer (n : Int) : (integer n).toExponent = .ok n := rfl

/-- What a value yields item by item: a list its items, a text its characters, a
map its keys. -/
def items : Value → Except Error (List Value)
  | list xs => .ok xs
  | text s => .ok (s.toList.map fun c => text c.toString)
  | map entries => .ok (entries.map Prod.fst)
  | _ => .error .operandType

/-- The item of a list at an index, which counts from the end if negative, or the
entry of a map under a key. -/
def subscript (v key : Value) : Except Error Value :=
  match v with
  | map entries =>
    match entryAt? key entries with
    | some e => .ok e.2
    | none => .error .indexRange
  | list xs =>
    match key with
    | number a =>
      match a.widen with
      | .integer n =>
        let place := if n < 0 then n + xs.length else n
        if h : 0 ≤ place ∧ place.toNat < xs.length then .ok (xs.get ⟨place.toNat, h.2⟩)
        else .error .indexRange
      | _ => .error .operandType
    | _ => .error .operandType
  | _ => .error .operandType

def isItem (item : Value) : List Value → Except Error Bool
  | [] => .ok false
  | v :: rest => do
    if v.isSame item then .ok true
    else if ← v.equals item then .ok true
    else isItem item rest

def contains (v item : Value) : Except Error Bool :=
  match v with
  | map entries => .ok (entryAt? item entries).isSome
  | list xs => isItem item xs
  | text s =>
    match item with
    | text t => .ok ((List.range (s.length + 1)).any fun i => t.toList.isPrefixOf (s.toList.drop i))
    | _ => .error .operandType
  | _ => .error .operandType

end Value

end QuantityCalculus
