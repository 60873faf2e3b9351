import QuantityCalculus.Registry.Definition
import QuantityCalculus.Registry.Table
import QuantityCalculus.UnitExpr.Spec

/-!
# Registries

A registry knows definitions by name, and aliases that lead to names. Registering
checks the name and the aliases of the definition first and, unless overwriting is
allowed, refuses names that are in use; only then are the tables written, so a
refusal changes nothing. Overwriting moves names between the tables: a name that
becomes an alias loses its definition, and an alias that gets a definition stops
leading elsewhere. Looking up follows one alias.
-/
namespace QuantityCalculus

structure Registry where
  /-- What the registry defines, for its messages. -/
  kind : String
  definitions : Table Definition := .empty
  aliases : Table String := .empty

namespace Registry

def isTaken (r : Registry) (name : String) : Bool :=
  r.definitions.contains name || r.aliases.contains name

/-- The name that a name or alias leads to. -/
def target (r : Registry) (name : String) : String := (r.aliases.get? name).getD name

/-- The definition that a name or alias leads to. -/
def get? (r : Registry) (name : String) : Option Definition := r.definitions.get? (r.target name)

/-- Whether a name or alias leads to a definition that is something. -/
def has (r : Registry) (name : String) : Bool :=
  match r.get? name with
  | some d => !d.isAbsent
  | none => false

def canonicalName? (r : Registry) (name : String) : Option String :=
  if r.definitions.contains (r.target name) then some (r.target name) else none

def names (r : Registry) : List String :=
  r.definitions.names.mergeSort fun a b => decide (a ≤ b)

def size (r : Registry) : Nat := r.definitions.size

/-- Make a name lead to another one, and to nothing of its own. -/
def redirect (r : Registry) (byname name : String) : Registry :=
  { r with definitions := r.definitions.erase byname, aliases := r.aliases.put byname name }

/-- Write a definition under a name, then its aliases one after the other. -/
def write (r : Registry) (name : String) (d : Definition) (aliases : List String) : Registry :=
  aliases.foldl (fun r byname => r.redirect byname name)
    { r with definitions := r.definitions.put name d, aliases := r.aliases.erase name }

def checkName (r : Registry) (v : Value) : Except Error String :=
  match v with
  | .text s => if UnitExpr.isName s.toList then .ok s else .error (.improperName r.kind s)
  | _ => do .error (.improperName r.kind (← v.display))

def checkFree (r : Registry) (names : List String) : Except Error Unit :=
  match names.find? r.isTaken with
  | some name => .error (.nameTaken r.kind name)
  | none => .ok ()

def register (r : Registry) (name : Value) (d : Definition) (overwrite : Bool) :
    Except Error Registry := do
  let name ← r.checkName name
  let aliases ← d.aliases.mapM r.checkName
  if overwrite then .ok (r.write name d aliases)
  else
    r.checkFree (name :: aliases)
    .ok (r.write name d aliases)

/-- A value as a name to be looked up: only texts are names, and a value that cannot
be a key is refused. -/
def keyOf (v : Value) : Except Error (Option String) :=
  match v with
  | .text s => .ok (some s)
  | _ => if v.isHashable then .ok none else .error .operandType

def registerAlias (r : Registry) (byname canonical : Value) (overwrite : Bool) :
    Except Error Registry := do
  let byname ← r.checkName byname
  match ← keyOf canonical with
  | some name =>
    if !r.definitions.contains name then .error (.unknownName r.kind name)
    else if !overwrite && r.isTaken byname then .error (.aliasTaken byname)
    else .ok (r.redirect byname name)
  | none => .error (.unknownName r.kind (← canonical.display))

end Registry

end QuantityCalculus
