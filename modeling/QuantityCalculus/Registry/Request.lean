import QuantityCalculus.Registry.Basic

/-!
# Requests to a registry

Writes and look-ups with unchecked names. Registering a unit through the shorthand of
a standard registry overwrites unless it is told not to; all other writes refuse
names in use unless they are told to overwrite.
-/
namespace QuantityCalculus

inductive RegistryRequest where
  | register (name : Value) (parts : DefinitionParts) (overwrite : Option Bool)
  | shorthand (name : Value) (parts : DefinitionParts) (overwrite : Option Bool)
  | registerAlias (byname canonical : Value) (overwrite : Option Bool)
  | get (name : Value)
  | has (name : Value)
  | canonicalName (name : Value)
  | size
  | names
  | all
  /-- A request that could not be put together, since a value in it is refused. -/
  | malformed (e : Error)

inductive RegistryAnswer where
  | written
  | definition (d : Option Definition)
  | truth (b : Bool)
  | name (n : Option String)
  | count (n : Nat)
  | names (ns : List String)
  | all (rows : List (String × Definition))

namespace Registry

/-- A look-up under an unchecked name; only texts can lead anywhere. -/
def lookUp {α : Type} (nothing : α) (find : String → α) (name : Value) : Except Error α := do
  .ok ((← keyOf name).elim nothing find)

def registerParts (r : Registry) (name : Value) (parts : DefinitionParts) (overwrite : Bool) :
    Except Error Registry := do
  r.register name (← Definition.ofParts parts) overwrite

def perform (r : Registry) : RegistryRequest → Except Error (RegistryAnswer × Registry)
  | .register name parts overwrite => do
    .ok (.written, ← r.registerParts name parts (overwrite.getD false))
  | .shorthand name parts overwrite => do
    .ok (.written, ← r.registerParts name parts (overwrite.getD true))
  | .registerAlias byname canonical overwrite => do
    .ok (.written, ← r.registerAlias byname canonical (overwrite.getD false))
  | .get name => do .ok (.definition (← lookUp none r.get? name), r)
  | .has name => do .ok (.truth (← lookUp false r.has name), r)
  | .canonicalName name => do .ok (.name (← lookUp none r.canonicalName? name), r)
  | .size => .ok (.count r.size, r)
  | .names => .ok (.names r.names, r)
  | .all => .ok (.all r.definitions.rows, r)
  | .malformed e => .error e

/-- A refused request leaves the registry as it is. -/
def step (r : Registry) (request : RegistryRequest) : Except Error RegistryAnswer × Registry :=
  match r.perform request with
  | .ok (a, after) => (.ok a, after)
  | .error e => (.error e, r)

end Registry

end QuantityCalculus
