import QuantityCalculus.Proofs.Registry.Run

/-!
# Writing in place

A registration works on the two tables row by row: every name is checked, every name is
looked for, and then rows are erased and put one after the other. A step that fails ends the
registration, and what has been written by then stays. Since no step fails once a row was
touched, a refused registration leaves the registry as it was, and an accepted one leaves
the registry that is described by a single write.
-/
namespace QuantityCalculus

namespace Registry

/-- A computation on a registry; what it has written stays written when it fails. -/
abbrev InPlace (α : Type) := EStateM Error Registry α

/-- What a registration leaves: a registry, or the error and the registry from before. -/
def settled (r : Registry) : Except Error Registry → EStateM.Result Error Registry Unit
  | .ok after => .ok () after
  | .error e => .error e r

namespace InPlace

variable {α β : Type} {r : Registry}

def look (test : Registry → Except Error α) : InPlace α := fun r =>
  match test r with
  | .ok a => .ok a r
  | .error e => .error e r

def lookFree (name : String) (refusal : Registry → Error) : InPlace Unit :=
  look fun r => if r.isTaken name then .error (refusal r) else .ok ()

/-- Take the definition from a byname, then make it lead to the name. -/
def redirect (byname name : String) : InPlace Unit := do
  modify fun r => { r with definitions := r.definitions.erase byname }
  modify fun r => { r with aliases := r.aliases.put byname name }

def register (name : Value) (d : Definition) (overwrite : Bool) : InPlace Unit := do
  let name ← look (·.checkName name)
  let bynames ← d.aliases.mapM fun v => look (·.checkName v)
  unless overwrite do
    forM (name :: bynames) fun n => lookFree n fun r => .nameTaken r.kind n
  modify fun r => { r with aliases := r.aliases.erase name }
  modify fun r => { r with definitions := r.definitions.put name d }
  forM bynames fun byname => redirect byname name

def registerAlias (byname name : String) (overwrite : Bool) : InPlace Unit := do
  let byname ← look (·.checkName (.text byname))
  look fun r => if r.definitions.contains name then .ok () else .error (.unknownName r.kind name)
  unless overwrite do
    lookFree byname fun _ => .aliasTaken byname
  redirect byname name

theorem look_bind_look (test : Registry → Except Error α) (next : α → Registry → Except Error β) :
    (look test >>= fun a => look (next a)) = look fun r => test r >>= fun a => next a r := by
  funext r
  simp only [bind, EStateM.bind, Except.bind, look]
  cases test r <;> rfl

theorem run_look_bind_ok {test : Registry → Except Error α} {next : α → InPlace β} {a : α}
    (h : test r = .ok a) : (look test >>= next).run r = (next a).run r := by
  simp only [EStateM.run, bind, EStateM.bind, look, h]

theorem run_look_bind_error {test : Registry → Except Error α} {next : α → InPlace β} {e : Error}
    (h : test r = .error e) : (look test >>= next).run r = .error e r := by
  simp only [EStateM.run, bind, EStateM.bind, look, h]

/-- A look at the registry settles it if all that follows does. -/
theorem run_look_bind {test : Registry → Except Error α} {next : α → InPlace Unit}
    {rest : α → Except Error Registry} (h : ∀ a, (next a).run r = r.settled (rest a)) :
    (look test >>= next).run r = r.settled (test r >>= rest) := by
  cases htest : test r with
  | error e => exact run_look_bind_error htest
  | ok a => exact (run_look_bind_ok htest).trans (h a)

theorem mapM_look (test : β → Registry → Except Error α) (vs : List β) :
    (vs.mapM fun v => look (test v)) = look fun r => vs.mapM fun v => test v r := by
  induction vs with
  | nil => rfl
  | cons v rest ih =>
    have hrest (a : α) :
        (look (fun r => rest.mapM fun v => test v r) >>= fun others => pure (a :: others)) =
          look fun r => (rest.mapM fun v => test v r) >>= fun others => .ok (a :: others) :=
      look_bind_look _ fun others _ => .ok (a :: others)
    simp only [List.mapM_cons, ih, hrest]
    exact look_bind_look _ _

theorem forM_lookFree (names : List String) :
    (forM names fun n => lookFree n fun r => .nameTaken r.kind n) = look (·.checkFree names) := by
  induction names with
  | nil => rfl
  | cons n rest ih =>
    rw [List.forM_cons, ih]
    refine (look_bind_look _ fun _ r => r.checkFree rest).trans ?_
    congr
    funext r
    unfold checkFree
    rw [List.find?_cons]
    cases r.isTaken n <;> rfl

theorem forM_redirect (name : String) (bynames : List String) :
    (forM bynames fun byname => redirect byname name) =
      modify fun r => bynames.foldl (fun r byname => r.redirect byname name) r := by
  induction bynames with
  | nil => rfl
  | cons byname rest ih =>
    rw [List.forM_cons, ih]
    rfl

/-- A registration in place leaves what the write describes, or the registry as it was. -/
theorem run_register (v : Value) (d : Definition) (overwrite : Bool) (r : Registry) :
    (register v d overwrite).run r = r.settled (r.register v d overwrite) := by
  unfold register Registry.register
  simp only [mapM_look, forM_lookFree, forM_redirect]
  refine run_look_bind fun name => run_look_bind fun bynames => ?_
  cases overwrite with
  | true => rfl
  | false => exact run_look_bind fun _ => rfl

theorem run_registerAlias (byname name : String) (overwrite : Bool) (r : Registry) :
    (registerAlias byname name overwrite).run r =
      r.settled (r.registerAlias (.text byname) (.text name) overwrite) := by
  unfold registerAlias Registry.registerAlias
  refine run_look_bind fun byname => ?_
  change _ = r.settled (if !r.definitions.contains name then _ else _)
  cases hdefined : r.definitions.contains name with
  | false => exact run_look_bind_error (if_neg (by simp [hdefined]))
  | true =>
    refine (run_look_bind_ok (if_pos hdefined)).trans ?_
    cases overwrite with
    | true => rfl
    | false =>
      cases htaken : r.isTaken byname with
      | true => exact run_look_bind_error (if_pos htaken)
      | false => exact run_look_bind_ok (if_neg (by simp [htaken]))

end InPlace

end Registry

end QuantityCalculus
