import QuantityCalculus.Proofs.Registry.ReadBack

/-!
# Membership

Membership asks for a definition that is something, while resolving a name and listing the names
ask for a row. The two agree for a name unless the definition that it leads to is nothing at all.
Since a registry accepts such a definition like any other, membership agrees all along a run
exactly if no accepted request of the run brings one.
-/
namespace QuantityCalculus

namespace Registry

variable {r : Registry} {name x : String} {bynames : List String} {d : Definition}
  {request : RegistryRequest}

/-- Membership says of each name what resolving it says, and all listed names are members. -/
structure MembershipAgrees (r : Registry) : Prop where
  resolves : ∀ x, r.has x = true ↔ r.canonicalName? x ≠ none
  listed : ∀ x ∈ r.names, r.has x = true

/-- Every definition is something. -/
def AllPresent (r : Registry) : Prop :=
  ∀ x d, r.definitions.get? x = some d → d.isAbsent = false

inductive Brings (r : Registry) : RegistryRequest → Definition → Prop where
  | register {v : Value} {parts : DefinitionParts} {overwrite : Option Bool} {name : String}
      {bynames : List String} {d : Definition}
      (h : r.AcceptsParts v parts (overwrite.getD false) name bynames d) :
      Brings r (.register v parts overwrite) d
  | shorthand {v : Value} {parts : DefinitionParts} {overwrite : Option Bool} {name : String}
      {bynames : List String} {d : Definition}
      (h : r.AcceptsParts v parts (overwrite.getD true) name bynames d) :
      Brings r (.shorthand v parts overwrite) d

theorem has_iff : r.has x = true ↔ ∃ d, r.get? x = some d ∧ d.isAbsent = false := by
  unfold has
  cases r.get? x with
  | none => simp
  | some d => simp

theorem canonicalName?_ne_none_iff : r.canonicalName? x ≠ none ↔ ∃ d, r.get? x = some d := by
  rw [get?, ← Table.contains_eq_true_iff, canonicalName?]
  split
  · rename_i hdefined
    exact iff_of_true (by simp) hdefined
  · rename_i hundefined
    exact iff_of_false (by simp) hundefined

theorem has_agrees_iff :
    (r.has x = true ↔ r.canonicalName? x ≠ none) ↔ ∀ d, r.get? x = some d → d.isAbsent = false := by
  rw [has_iff, canonicalName?_ne_none_iff]
  constructor
  · intro hagrees d hd
    obtain ⟨d', hd', hpresent⟩ := hagrees.mpr ⟨d, hd⟩
    cases hd.symm.trans hd'
    exact hpresent
  · intro hpresent
    constructor
    · rintro ⟨d, hd, -⟩
      exact ⟨d, hd⟩
    · rintro ⟨d, hd⟩
      exact ⟨d, hd, hpresent d hd⟩

theorem membershipAgrees_iff (h : r.Apart) : r.MembershipAgrees ↔ r.AllPresent := by
  constructor
  · intro hagrees x d hd
    have hdefined := (r.definitions.contains_eq_true_iff x).mpr ⟨d, hd⟩
    have hmember := hagrees.listed x ((r.mem_names_iff x).mpr hdefined)
    obtain ⟨d', hd', hpresent⟩ := has_iff.mp hmember
    rw [h.get?_of_contains hdefined, hd] at hd'
    cases hd'
    exact hpresent
  · intro hpresent
    constructor
    · intro x
      exact has_agrees_iff.mpr fun d hd => hpresent _ d hd
    · intro x hx
      have hdefined := (r.mem_names_iff x).mp hx
      obtain ⟨d, hd⟩ := (r.definitions.contains_eq_true_iff x).mp hdefined
      exact has_iff.mpr ⟨d, (h.get?_of_contains hdefined).trans hd, hpresent x d hd⟩

theorem aliases_of_isAbsent (h : d.isAbsent = true) : d.aliases = [] := by
  unfold Definition.isAbsent at h
  split at h
  · rfl
  · cases h

/-- A write brings its own definition, and no other one is new. -/
theorem of_definitions_write {d' : Definition}
    (h : (r.write name d bynames).definitions.get? x = some d') :
    d' = d ∨ r.definitions.get? x = some d' := by
  rw [write, definitions_redirectAll, Table.get?_put] at h
  split at h
  · cases h
  · split at h
    · exact .inl (Option.some.inj h).symm
    · exact .inr h

theorem allPresent_write_iff (h : r.AllPresent) (hbynames : d.aliases.mapM r.checkName = .ok bynames) :
    (r.write name d bynames).AllPresent ↔ d.isAbsent = false := by
  constructor
  · intro hafter
    by_contra habsent
    rw [Bool.not_eq_false] at habsent
    rw [aliases_of_isAbsent habsent] at hbynames
    cases hbynames
    have hwritten : (r.write name d []).definitions.get? name = some d := by
      rw [definition_write, if_neg List.not_mem_nil]
    exact Bool.false_ne_true ((hafter name d hwritten).symm.trans habsent)
  · intro hpresent x d' hd'
    rcases of_definitions_write hd' with rfl | hold
    · exact hpresent
    · exact h x d' hold

theorem allPresent_redirect (h : r.AllPresent) (byname : String) :
    (r.redirect byname name).AllPresent := by
  intro x d hd
  rw [redirect, Table.get?_erase] at hd
  split at hd
  · cases hd
  · exact h x d hd

theorem Brings.accepts (h : r.Brings request d) : ∃ name bynames, r.Accepts request name bynames := by
  cases h with
  | register h => exact ⟨_, _, .register h⟩
  | shorthand h => exact ⟨_, _, .shorthand h⟩

theorem forall_brings_iff (h : r.Brings request d) {p : Definition → Prop} :
    (∀ d', r.Brings request d' → p d') ↔ p d := by
  constructor
  · exact fun hall => hall d h
  · intro hd d' h'
    cases h with
    | register h => cases h' with
      | register h' =>
        cases h.built.symm.trans h'.built
        exact hd
    | shorthand h => cases h' with
      | shorthand h' =>
        cases h.built.symm.trans h'.built
        exact hd

theorem allPresent_step_iff (h : r.AllPresent) (request : RegistryRequest) :
    (r.step request).2.AllPresent ↔ ∀ d, r.Brings request d → d.isAbsent = false := by
  by_cases haccepts : ∃ name bynames, r.Accepts request name bynames
  · obtain ⟨name, bynames, haccepts⟩ := haccepts
    cases haccepts with
    | register haccepts =>
      rw [step_register haccepts, allPresent_write_iff h haccepts.bynames_proper,
        forall_brings_iff (.register haccepts)]
    | shorthand haccepts =>
      rw [step_shorthand haccepts, allPresent_write_iff h haccepts.bynames_proper,
        forall_brings_iff (.shorthand haccepts)]
    | registerAlias proper defined free =>
      rw [step_registerAlias proper defined free]
      exact iff_of_true (allPresent_redirect h _) nofun
  · rw [step_of_not_accepts fun name bynames hacc => haccepts ⟨name, bynames, hacc⟩]
    exact iff_of_true h fun d hbrings => absurd hbrings.accepts haccepts

theorem allPresent_of_rows (h : ∀ row ∈ r.definitions.rows, row.2.isAbsent = false) :
    r.AllPresent :=
  fun _ _ hd => h _ (Table.mem_rows_of_get? hd)

theorem Start.allPresent (start : Start) : start.registry.AllPresent := by
  cases start with
  | empty kind => exact allPresent_of_rows (by simp [registry, Table.empty])
  | standard ns =>
    apply allPresent_of_rows
    cases ns <;> decide

/-- In every state of a run, membership agrees with resolving for exactly those names that do not
lead to nothing; and it agrees for all names, with the listing too, all along the run exactly if
no request of the run is accepted with nothing as its definition. -/
theorem membership_agrees_along_iff (start : Start) (requests : List RegistryRequest) :
    (∀ x, let r := start.registry.run requests
      (r.has x = true ↔ r.canonicalName? x ≠ none) ↔
        ∀ d, r.get? x = some d → d.isAbsent = false) ∧
    ((∀ before, before <+: requests → (start.registry.run before).MembershipAgrees) ↔
      ∀ before request, before ++ [request] <+: requests →
        ∀ d, (start.registry.run before).Brings request d → d.isAbsent = false) := by
  constructor
  · intro x
    exact has_agrees_iff
  · have hagrees : ∀ before,
        (start.registry.run before).MembershipAgrees ↔ (start.registry.run before).AllPresent :=
      fun before => membershipAgrees_iff (apart_run start.apart before)
    simp only [hagrees]
    exact holds_along_iff start.apart start.allPresent
      (fun _ request _ h => allPresent_step_iff h request) requests

/-- Nothing is accepted as a definition. The name is listed then, resolves, and is taken, and yet
it is no member. -/
theorem nothing_defined_is_no_member :
    let r := (Start.empty "unit").registry.run [.register (.text "a") (.other .absent) none]
    "a" ∈ r.names ∧ r.canonicalName? "a" = some "a" ∧ r.has "a" = false ∧
      r.register (.text "a") (.algebraic (.text "x")) false = .error (.nameTaken "unit" "a") := by
  intro r
  exact ⟨(r.mem_names_iff "a").mpr rfl, rfl, rfl, rfl⟩

end Registry

end QuantityCalculus
