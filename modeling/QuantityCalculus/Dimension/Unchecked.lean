import QuantityCalculus.Value.Arithmetic

/-!
# Maps of unchecked exponents

Maps from outside have any keys and any exponents. Normalizing such a map checks
each entry in order, the symbol before the exponent, and drops zeros; what remains
keeps its order. Sums, multiples and comparisons are also defined on unchecked maps,
computing with the exponents as they are.
-/
namespace QuantityCalculus

namespace DimensionMap

/-- The symbol and exponent of one entry. -/
def checkEntry (e : Value × Value) : Except Error (String × Int) :=
  match e.1 with
  | .text s => do .ok (s, ← e.2.toExponent)
  | key => .error (.symbolNotText key.typeName)

/-- The exponent map that a value denotes; a vacant value denotes no units. -/
def normalize (v : Value) : Except Error DimensionMap :=
  if v.isVacant then .ok empty
  else
    match v with
    | .map entries => do .ok (ofList (← entries.mapM checkEntry))
    | _ => .error .missingMember

def toValue (m : DimensionMap) : Value :=
  .map (m.entries.map fun e => (.text e.1, .integer e.2))

/-- An exponent times a factor, which must be a whole finite number. -/
def scaledExponent (symbol exponent factor : Value) : Except Error Int := do
  let product ← exponent.mul factor
  match product with
  | .number (.float x) =>
    if (Binary.ofFloat x).isFinite then product.toExponent
    else .error (.unboundedExponent (← symbol.display) (← exponent.display) (← factor.describe))
  | _ => product.toExponent

def scaleBy (m : DimensionMap) (factor : Value) : Except Error DimensionMap := do
  .ok (ofList (← m.entries.mapM fun e => do
    .ok (e.1, ← scaledExponent (.text e.1) (.integer e.2) factor)))

end DimensionMap

namespace Dimensions

/-- The dimensions that three values denote, checked in the order of the namespaces. -/
def ofValues (physical algebraic symbolic : Value) : Except Error Dimensions := do
  .ok ⟨← DimensionMap.normalize physical, ← DimensionMap.normalize algebraic,
    ← DimensionMap.normalize symbolic⟩

/-- A power with an exponent of any kind; zero gives no dimensions at all. -/
def powBy (d : Dimensions) (n : Value) : Except Error Dimensions := do
  if ← n.equals (.integer 0) then .ok dimensionless
  else .ok ⟨← d.physical.scaleBy n, ← d.algebraic.scaleBy n, ← d.symbolic.scaleBy n⟩

end Dimensions

namespace Unchecked

def pairOf (v : Value) : Except Error (Value × Value) := do
  match ← v.items with
  | [key, value] => if key.isHashable then .ok (key, value) else .error .operandType
  | _ => .error .improperValue

def entriesOf (v : Value) : Except Error (List (Value × Value)) := do
  match v with
  | .map entries => .ok entries
  | _ =>
    let pairs ← (← v.items).mapM pairOf
    .ok (pairs.foldl (fun written e => Value.insertEntry e.1 e.2 written) [])

def mapEntries : Value → Except Error (List (Value × Value))
  | .map entries => .ok entries
  | _ => .error .missingMember

/-- Add an exponent under a key: zero removes the entry, a known key keeps its place. -/
def bump (entries : List (Value × Value)) (key exponent : Value) :
    Except Error (List (Value × Value)) := do
  let old :=
    match Value.entryAt? key entries with
    | some e => e.2
    | none => .integer 0
  let sum ← old.add exponent
  .ok (if ← sum.equals (.integer 0) then entries.filter fun e => !e.1.isSameKey key
    else Value.insertEntry key sum entries)

def add (a b : Value) : Except Error DimensionMap := do
  let start ← entriesOf a
  let sum ← (← mapEntries b).foldlM (fun entries e => bump entries e.1 e.2) start
  DimensionMap.normalize (.map sum)

def scale (a factor : Value) : Except Error (List (Value × Int)) := do
  let scaled ← (← mapEntries a).mapM fun e => do
    .ok (e.1, ← DimensionMap.scaledExponent e.1 e.2 factor)
  .ok (scaled.filter fun e => e.2 != 0)

def size : Value → Except Error Nat
  | .text s => .ok s.length
  | .list xs => .ok xs.length
  | .map entries => .ok entries.length
  | _ => .error .operandType

/-- Whether the other value has every entry, up to the first that differs. -/
def hasEntries (other : Value) : List (Value × Value) → Except Error Bool
  | [] => .ok true
  | e :: rest => do
    if ← other.contains e.1 then
      if ← (← other.subscript e.1).equals e.2 then hasEntries other rest else .ok false
    else
      .ok false

def agree (a b : Value) : Except Error Bool := do
  if (← size a) = (← size b) then hasEntries b (← mapEntries a) else .ok false

end Unchecked

end QuantityCalculus
