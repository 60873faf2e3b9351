import Mathlib.Data.List.Induction
import QuantityCalculus.Proofs.Outcome
import QuantityCalculus.Proofs.Registry.Write
import QuantityCalculus.Registry.Request
import QuantityCalculus.Registry.Standard

/-!
# Runs of requests

A request is accepted if its names are proper and free or may be overwritten. An accepted
request is a write; every other request leaves the registry as it is. Runs start from an
empty registry or from a standard one.
-/
namespace QuantityCalculus

namespace Registry

def MayWrite (r : Registry) (overwrite : Bool) (names : List String) : Prop :=
  overwrite = true ∨ ∀ name ∈ names, r.isTaken name = false

theorem mayWrite_singleton {r : Registry} {overwrite : Bool} {name : String} :
    r.MayWrite overwrite [name] ↔ ¬(!overwrite && r.isTaken name) = true := by
  unfold MayWrite
  cases overwrite <;> simp

/-- A definition under an unchecked name is accepted as a name with bynames. -/
structure AcceptsParts (r : Registry) (v : Value) (parts : DefinitionParts) (overwrite : Bool)
    (name : String) (bynames : List String) (d : Definition) : Prop where
  built : Definition.ofParts parts = .ok d
  proper : r.checkName v = .ok name
  bynames_proper : d.aliases.mapM r.checkName = .ok bynames
  free : r.MayWrite overwrite (name :: bynames)

/-- The request is accepted, and makes the bynames lead to the name. -/
inductive Accepts (r : Registry) : RegistryRequest → String → List String → Prop where
  | register {v : Value} {parts : DefinitionParts} {overwrite : Option Bool} {name : String}
      {bynames : List String} {d : Definition}
      (h : r.AcceptsParts v parts (overwrite.getD false) name bynames d) :
      Accepts r (.register v parts overwrite) name bynames
  | shorthand {v : Value} {parts : DefinitionParts} {overwrite : Option Bool} {name : String}
      {bynames : List String} {d : Definition}
      (h : r.AcceptsParts v parts (overwrite.getD true) name bynames d) :
      Accepts r (.shorthand v parts overwrite) name bynames
  | registerAlias {v : Value} {overwrite : Option Bool} {byname name : String}
      (proper : r.checkName v = .ok byname) (defined : r.definitions.contains name = true)
      (free : r.MayWrite (overwrite.getD false) [byname]) :
      Accepts r (.registerAlias v (.text name) overwrite) name [byname]

theorem checkFree_eq_ok_iff (r : Registry) (names : List String) :
    r.checkFree names = .ok () ↔ ∀ name ∈ names, r.isTaken name = false := by
  unfold checkFree
  split
  · rename_i name hfind
    have hname := List.find?_some hfind
    have hmem := List.mem_of_find?_eq_some hfind
    constructor
    · intro h
      cases h
    · intro h
      rw [h name hmem] at hname
      cases hname
  · rename_i hfind
    simp only [List.find?_eq_none, Bool.not_eq_true] at hfind
    exact ⟨fun _ => hfind, fun _ => rfl⟩

theorem register_eq_ok_iff {r after : Registry} {v : Value} {d : Definition} {overwrite : Bool} :
    r.register v d overwrite = .ok after ↔
      ∃ name bynames, r.checkName v = .ok name ∧ d.aliases.mapM r.checkName = .ok bynames ∧
        r.MayWrite overwrite (name :: bynames) ∧ r.write name d bynames = after := by
  unfold register
  simp only [bind_eq_ok_iff]
  constructor
  · rintro ⟨name, hname, bynames, hbynames, h⟩
    split at h
    · rename_i hoverwrite
      exact ⟨name, bynames, hname, hbynames, .inl hoverwrite, Except.ok.inj h⟩
    · obtain ⟨_, hfree, h⟩ := bind_eq_ok_iff.mp h
      have hfree := (r.checkFree_eq_ok_iff _).mp hfree
      exact ⟨name, bynames, hname, hbynames, .inr hfree, Except.ok.inj h⟩
  · rintro ⟨name, bynames, hname, hbynames, hmay, rfl⟩
    refine ⟨name, hname, bynames, hbynames, ?_⟩
    split
    · rfl
    · rename_i hoverwrite
      have hfree := (r.checkFree_eq_ok_iff _).mpr (hmay.resolve_left hoverwrite)
      exact bind_eq_ok_iff.mpr ⟨(), hfree, rfl⟩

theorem registerParts_eq_ok_iff {r after : Registry} {v : Value} {parts : DefinitionParts}
    {overwrite : Bool} :
    r.registerParts v parts overwrite = .ok after ↔
      ∃ name bynames d, r.AcceptsParts v parts overwrite name bynames d ∧
        r.write name d bynames = after := by
  unfold registerParts
  rw [bind_eq_ok_iff]
  constructor
  · rintro ⟨d, hbuilt, h⟩
    obtain ⟨name, bynames, hname, hbynames, hfree, hafter⟩ := register_eq_ok_iff.mp h
    exact ⟨name, bynames, d, ⟨hbuilt, hname, hbynames, hfree⟩, hafter⟩
  · rintro ⟨name, bynames, d, h, hafter⟩
    refine ⟨d, h.built, ?_⟩
    exact register_eq_ok_iff.mpr ⟨name, bynames, h.proper, h.bynames_proper, h.free, hafter⟩

theorem keyOf_eq_some_iff {v : Value} {name : String} :
    keyOf v = .ok (some name) ↔ v = .text name := by
  unfold keyOf
  split
  · rename_i s
    constructor
    · intro h
      cases h
      rfl
    · intro h
      cases h
      rfl
  · rename_i hno
    constructor
    · intro h
      split at h <;> cases h
    · intro h
      exact absurd h (hno name)

theorem registerAlias_eq_ok_iff {r after : Registry} {v canonical : Value} {overwrite : Bool} :
    r.registerAlias v canonical overwrite = .ok after ↔
      ∃ byname name, canonical = .text name ∧ r.checkName v = .ok byname ∧
        r.definitions.contains name = true ∧ r.MayWrite overwrite [byname] ∧
        r.redirect byname name = after := by
  unfold registerAlias
  simp only [bind_eq_ok_iff]
  constructor
  · rintro ⟨byname, hbyname, key, hkey, h⟩
    cases key with
    | none =>
      obtain ⟨shown, -, h⟩ := bind_eq_ok_iff.mp h
      cases h
    | some name =>
      dsimp only at h
      split at h
      · cases h
      · rename_i hdefined
        split at h
        · cases h
        · rename_i hfree
          have htext := keyOf_eq_some_iff.mp hkey
          exact ⟨byname, name, htext, hbyname, by simpa using hdefined,
            mayWrite_singleton.mpr hfree, Except.ok.inj h⟩
  · rintro ⟨byname, name, rfl, hbyname, hdefined, hfree, rfl⟩
    refine ⟨byname, hbyname, some name, rfl, ?_⟩
    dsimp only
    rw [if_neg (by simp [hdefined]), if_neg (mayWrite_singleton.mp hfree)]

theorem step_register {r : Registry} {v : Value} {parts : DefinitionParts}
    {overwrite : Option Bool} {name : String} {bynames : List String} {d : Definition}
    (h : r.AcceptsParts v parts (overwrite.getD false) name bynames d) :
    (r.step (.register v parts overwrite)).2 = r.write name d bynames := by
  have hok := registerParts_eq_ok_iff.mpr ⟨_, _, _, h, rfl⟩
  simp only [step, perform, hok]
  rfl

theorem step_shorthand {r : Registry} {v : Value} {parts : DefinitionParts}
    {overwrite : Option Bool} {name : String} {bynames : List String} {d : Definition}
    (h : r.AcceptsParts v parts (overwrite.getD true) name bynames d) :
    (r.step (.shorthand v parts overwrite)).2 = r.write name d bynames := by
  have hok := registerParts_eq_ok_iff.mpr ⟨_, _, _, h, rfl⟩
  simp only [step, perform, hok]
  rfl

theorem step_registerAlias {r : Registry} {v : Value} {overwrite : Option Bool}
    {byname name : String} (proper : r.checkName v = .ok byname)
    (defined : r.definitions.contains name = true)
    (free : r.MayWrite (overwrite.getD false) [byname]) :
    (r.step (.registerAlias v (.text name) overwrite)).2 = r.redirect byname name := by
  have hok := registerAlias_eq_ok_iff.mpr ⟨_, _, rfl, proper, defined, free, rfl⟩
  simp only [step, perform, hok]
  rfl

theorem written_of_accepts {r : Registry} (h : r.Apart) {request : RegistryRequest} {name : String}
    {bynames : List String} (haccepts : r.Accepts request name bynames) :
    Written r name bynames (r.step request).2 := by
  cases haccepts with
  | register haccepts =>
    rw [step_register haccepts]
    exact written_write r name _ bynames
  | shorthand haccepts =>
    rw [step_shorthand haccepts]
    exact written_write r name _ bynames
  | registerAlias proper defined free =>
    rw [step_registerAlias proper defined free]
    exact written_redirect h defined

theorem step_of_not_accepts {r : Registry} {request : RegistryRequest}
    (h : ∀ name bynames, ¬r.Accepts request name bynames) : (r.step request).2 = r := by
  unfold step
  split
  · rename_i answer after hperform
    -- writes that were performed had been accepted, and the other requests only read
    cases request with
    | register v parts overwrite =>
      obtain ⟨a, ha, hafter⟩ := bind_eq_ok_iff.mp hperform
      obtain ⟨name, bynames, d, haccepts, -⟩ := registerParts_eq_ok_iff.mp ha
      exact absurd (.register haccepts) (h name bynames)
    | shorthand v parts overwrite =>
      obtain ⟨a, ha, hafter⟩ := bind_eq_ok_iff.mp hperform
      obtain ⟨name, bynames, d, haccepts, -⟩ := registerParts_eq_ok_iff.mp ha
      exact absurd (.shorthand haccepts) (h name bynames)
    | registerAlias v canonical overwrite =>
      obtain ⟨a, ha, hafter⟩ := bind_eq_ok_iff.mp hperform
      obtain ⟨byname, name, rfl, proper, defined, free, -⟩ := registerAlias_eq_ok_iff.mp ha
      exact absurd (.registerAlias proper defined free) (h name [byname])
    | get name | has name | canonicalName name =>
      obtain ⟨a, -, hafter⟩ := bind_eq_ok_iff.mp hperform
      cases hafter
      rfl
    | size | names | all =>
      cases hperform
      rfl
    | malformed e => cases hperform
  · rfl

/-- A property of the tables that every write preserves is preserved by every request. -/
theorem step_induction {p : Registry → Prop} {r : Registry} (happ : r.Apart) (h : p r)
    (hwrite : ∀ name bynames after, Written r name bynames after → p after)
    (request : RegistryRequest) : p (r.step request).2 := by
  by_cases haccepts : ∃ name bynames, r.Accepts request name bynames
  · obtain ⟨name, bynames, haccepts⟩ := haccepts
    exact hwrite name bynames _ (written_of_accepts happ haccepts)
  · rw [step_of_not_accepts fun name bynames hacc => haccepts ⟨name, bynames, hacc⟩]
    exact h

theorem apart_step {r : Registry} (h : r.Apart) (request : RegistryRequest) :
    (r.step request).2.Apart :=
  step_induction h h (fun _ _ _ hw => hw.apart h) request

def run (r : Registry) (requests : List RegistryRequest) : Registry :=
  requests.foldl (fun r request => (r.step request).2) r

@[simp] theorem run_nil (r : Registry) : r.run [] = r := rfl

theorem run_append (r : Registry) (requests more : List RegistryRequest) :
    r.run (requests ++ more) = (r.run requests).run more :=
  List.foldl_append

theorem run_concat (r : Registry) (requests : List RegistryRequest) (request : RegistryRequest) :
    r.run (requests ++ [request]) = ((r.run requests).step request).2 := by
  rw [run_append]
  rfl

theorem apart_run {r : Registry} (h : r.Apart) (requests : List RegistryRequest) :
    (r.run requests).Apart := by
  induction requests using List.reverseRecOn with
  | nil => exact h
  | append_singleton requests request ih =>
    rw [run_concat]
    exact apart_step ih request

/-- A property that every write preserves holds in every state of a run. -/
theorem run_induction {p : Registry → Prop} {r : Registry} (happ : r.Apart) (h : p r)
    (hwrite : ∀ r name bynames after, p r → Written r name bynames after → p after)
    (requests : List RegistryRequest) : p (r.run requests) := by
  induction requests using List.reverseRecOn with
  | nil => exact h
  | append_singleton requests request ih =>
    rw [run_concat]
    exact step_induction (apart_run happ requests) ih
      (fun name bynames after => hwrite _ name bynames after ih) request

/-- A property that the requests keep on a condition holds all along a run exactly if every
request of the run meets the condition where it is made. -/
theorem holds_along_iff {p : Registry → Prop} {q : Registry → RegistryRequest → Prop}
    {r : Registry} (happ : r.Apart) (h : p r)
    (hstep : ∀ r request, r.Apart → p r → (p (r.step request).2 ↔ q r request))
    (requests : List RegistryRequest) :
    (∀ before, before <+: requests → p (r.run before)) ↔
      ∀ before request, before ++ [request] <+: requests → q (r.run before) request := by
  constructor
  · intro hall before request hprefix
    have hbefore := hall before ((List.prefix_append before [request]).trans hprefix)
    have hafter := hall (before ++ [request]) hprefix
    rw [run_concat] at hafter
    exact (hstep _ request (apart_run happ before) hbefore).mp hafter
  · intro hall before
    induction before using List.reverseRecOn with
    | nil => exact fun _ => h
    | append_singleton before request ih =>
      intro hprefix
      have hbefore := ih ((List.prefix_append before [request]).trans hprefix)
      rw [run_concat]
      exact (hstep _ request (apart_run happ before) hbefore).mpr (hall before request hprefix)

theorem isTaken_run {r : Registry} (h : r.Apart) {x : String} (hx : r.isTaken x = true)
    (requests : List RegistryRequest) : (r.run requests).isTaken x = true :=
  run_induction (p := fun r => r.isTaken x = true) h hx
    (fun _ _ _ _ hx hw => (hw.isTaken_iff x).mpr (.inr (.inr hx))) requests

inductive Start where
  | empty (kind : String)
  | standard (ns : Namespace)

def Start.registry : Start → Registry
  | empty kind => { kind := kind }
  | standard ns => Registry.standard ns

theorem apart_of_rows {r : Registry}
    (h : ∀ row ∈ r.definitions.rows, r.aliases.get? row.1 = none) : r.Apart := by
  intro x hx
  obtain ⟨d, hd⟩ := (r.definitions.contains_eq_true_iff x).mp hx
  exact h _ (Table.mem_rows_of_get? hd)

theorem Start.apart (start : Start) : start.registry.Apart := by
  cases start with
  | empty kind => exact apart_of_rows (by simp [registry, Table.empty])
  | standard ns =>
    apply apart_of_rows
    cases ns <;> decide

end Registry

end QuantityCalculus
