import QuantityCalculus.Proofs.Registry.Views

/-!
# Where aliases lead

Looking up follows one alias, so a name resolves only if its alias leads to a definition.
A write that overwrites can break this: it may take the definition from a name to which
another alias still leads, or list a name among its own aliases. The aliases lead to
definitions all along a run exactly if no accepted write does one of these two things.
-/
namespace QuantityCalculus

namespace Registry

variable {r after : Registry} {name : String} {bynames : List String}

/-- Every alias leads to a name that has a definition. -/
def AliasesLead (r : Registry) : Prop :=
  ∀ byname target, r.aliases.get? byname = some target → r.definitions.contains target = true

/-- The name leads to a listed name. -/
def Resolves (r : Registry) (x : String) : Prop :=
  ∃ canonical, r.canonicalName? x = some canonical ∧ canonical ∈ r.names

/-- The write makes neither its own name a byname nor the target of an alias that stays. -/
def KeepsTargets (r : Registry) (name : String) (bynames : List String) : Prop :=
  name ∉ bynames ∧ ∀ byname target, r.aliases.get? byname = some target →
    byname ∉ bynames → byname ≠ name → target ∉ bynames

/-- The request is refused, or the write that it makes keeps the targets of all aliases. -/
def Harmless (r : Registry) (request : RegistryRequest) : Prop :=
  ∀ name bynames, r.Accepts request name bynames → r.KeepsTargets name bynames

theorem resolves_iff (r : Registry) (x : String) :
    r.Resolves x ↔ r.definitions.contains (r.target x) = true := by
  unfold Resolves canonicalName?
  constructor
  · rintro ⟨canonical, hcanonical, hmem⟩
    split at hcanonical
    · assumption
    · cases hcanonical
  · intro h
    rw [if_pos h]
    exact ⟨_, rfl, (r.mem_names_iff _).mpr h⟩

theorem AliasesLead.resolves (h : r.AliasesLead) {x : String} (hx : r.isTaken x = true) :
    r.Resolves x := by
  rw [resolves_iff]
  unfold target
  cases halias : r.aliases.get? x with
  | some target => exact h x target halias
  | none =>
    rcases (r.isTaken_iff x).mp hx with hx | hx
    · exact hx
    · rw [Table.contains, halias] at hx
      cases hx

theorem Written.aliasesLead_iff (hw : Written r name bynames after) (h : r.AliasesLead) :
    after.AliasesLead ↔ r.KeepsTargets name bynames := by
  constructor
  · intro hafter
    constructor
    · intro hname
      -- among its own bynames, the name would lead to itself without a definition
      have hself : after.aliases.get? name = some name := by rw [hw.aliases, if_pos hname]
      have hdefined := hafter name name hself
      exact ((hw.definitions name).mp hdefined).1 hname
    · intro byname target halias hbyname hne
      have hstays : after.aliases.get? byname = some target := by
        rw [hw.aliases, if_neg hbyname, if_neg hne, halias]
      have hdefined := hafter byname target hstays
      exact ((hw.definitions target).mp hdefined).1
  · rintro ⟨hname, hkeeps⟩
    intro byname target halias
    rw [hw.aliases] at halias
    rw [hw.definitions]
    split at halias
    · cases halias
      exact ⟨hname, .inl rfl⟩
    · rename_i hbyname
      split at halias
      · cases halias
      · rename_i hne
        exact ⟨hkeeps byname target halias hbyname hne, .inr (h byname target halias)⟩

theorem aliasesLead_step_iff (happ : r.Apart) (h : r.AliasesLead) (request : RegistryRequest) :
    (r.step request).2.AliasesLead ↔ r.Harmless request := by
  constructor
  · intro hafter name bynames haccepts
    exact ((written_of_accepts happ haccepts).aliasesLead_iff h).mp hafter
  · intro hharmless
    by_cases haccepts : ∃ name bynames, r.Accepts request name bynames
    · obtain ⟨name, bynames, haccepts⟩ := haccepts
      have hkeeps := hharmless name bynames haccepts
      exact ((written_of_accepts happ haccepts).aliasesLead_iff h).mpr hkeeps
    · rw [step_of_not_accepts fun name bynames hacc => haccepts ⟨name, bynames, hacc⟩]
      exact h

theorem aliasesLead_of_rows
    (h : ∀ row ∈ r.aliases.rows, r.definitions.contains row.2 = true) : r.AliasesLead :=
  fun _ _ halias => h _ (Table.mem_rows_of_get? halias)

theorem Start.aliasesLead (start : Start) : start.registry.AliasesLead := by
  cases start with
  | empty kind => exact aliasesLead_of_rows (by simp [registry, Table.empty])
  | standard ns =>
    apply aliasesLead_of_rows
    cases ns <;> decide

theorem aliasesLead_along_iff (happ : r.Apart) (h : r.AliasesLead)
    (requests : List RegistryRequest) :
    (∀ before, before <+: requests → (r.run before).AliasesLead) ↔
      ∀ before request, before ++ [request] <+: requests →
        (r.run before).Harmless request :=
  holds_along_iff happ h (fun _ request happ h => aliasesLead_step_iff happ h request) requests

/-- All along a run the aliases lead to definitions and the names that were ever taken
resolve, exactly if every request of the run is harmless where it is made. -/
theorem names_resolve_along_iff (start : Start) (requests : List RegistryRequest) :
    (∀ before, before <+: requests →
      (start.registry.run before).AliasesLead ∧
        ∀ earlier, earlier <+: before → ∀ x, (start.registry.run earlier).isTaken x = true →
          (start.registry.run before).Resolves x) ↔
      ∀ before request, before ++ [request] <+: requests →
        (start.registry.run before).Harmless request := by
  rw [← aliasesLead_along_iff start.apart start.aliasesLead]
  constructor
  · intro h before hprefix
    exact (h before hprefix).1
  · intro h before hprefix
    refine ⟨h before hprefix, ?_⟩
    rintro earlier ⟨more, rfl⟩ x hx
    apply (h _ hprefix).resolves
    rw [run_append]
    exact isTaken_run (apart_run start.apart earlier) hx more

/-- The unit `m` becomes a byname of `s` while its own byname `meter` still leads to it. -/
theorem meter_leads_nowhere_once_redirected :
    let start := (Start.standard .physical).registry
    let after := start.run [.registerAlias (.text "m") (.text "s") (some true)]
    start.isTaken "meter" = true ∧ ¬after.Resolves "meter" ∧ ¬after.AliasesLead := by
  intro start after
  have htarget : after.aliases.get? "meter" = some "m" := by decide +kernel
  have hundefined : after.definitions.contains "m" = false := by decide +kernel
  refine ⟨by decide +kernel, ?_, ?_⟩
  · intro hresolves
    have hdefined := (after.resolves_iff "meter").mp hresolves
    rw [target, htarget, Option.getD_some, hundefined] at hdefined
    cases hdefined
  · intro hlead
    have hdefined := hlead "meter" "m" htarget
    rw [hundefined] at hdefined
    cases hdefined

end Registry

end QuantityCalculus
