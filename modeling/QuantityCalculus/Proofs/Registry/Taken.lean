import QuantityCalculus.Proofs.Registry.Refusal

/-!
# Names once taken

Overwriting moves a name between the tables, but no request drops it: the names in use after a
run are those in use before it and those that some request of it was accepted with. A request
that may not overwrite is therefore refused for each of them, and the refusal is one of the
registry, unless another argument of the same request cannot be shown or cannot be looked up.
-/
namespace QuantityCalculus

namespace Registry

variable {r : Registry} {request : RegistryRequest} {requests : List RegistryRequest}
  {x name : String} {bynames : List String} {v canonical : Value} {d : Definition}

def AcceptsName (r : Registry) (request : RegistryRequest) (x : String) : Prop :=
  ∃ name bynames, r.Accepts request name bynames ∧ (x = name ∨ x ∈ bynames)

/-- Some request of the run was accepted with this name where it was made. -/
def AcceptedIn (r : Registry) (requests : List RegistryRequest) (x : String) : Prop :=
  ∃ before request, before ++ [request] <+: requests ∧ (r.run before).AcceptsName request x

theorem isTaken_step_iff (happ : r.Apart) (request : RegistryRequest) (x : String) :
    (r.step request).2.isTaken x = true ↔ r.isTaken x = true ∨ r.AcceptsName request x := by
  constructor
  · intro htaken
    by_cases haccepts : ∃ name bynames, r.Accepts request name bynames
    · obtain ⟨name, bynames, haccepts⟩ := haccepts
      rcases ((written_of_accepts happ haccepts).isTaken_iff x).mp htaken with hx | hx | hx
      · exact .inr ⟨name, bynames, haccepts, .inl hx⟩
      · exact .inr ⟨name, bynames, haccepts, .inr hx⟩
      · exact .inl hx
    · rw [step_of_not_accepts fun name bynames hacc => haccepts ⟨name, bynames, hacc⟩] at htaken
      exact .inl htaken
  · rintro (htaken | ⟨name, bynames, haccepts, hx⟩)
    · exact step_induction (p := fun after => after.isTaken x = true) happ htaken
        (fun _ _ _ hw => (hw.isTaken_iff x).mpr (.inr (.inr htaken))) request
    · exact ((written_of_accepts happ haccepts).isTaken_iff x).mpr (or_assoc.mp (.inl hx))

theorem acceptedIn_concat :
    r.AcceptedIn (requests ++ [request]) x ↔
      r.AcceptedIn requests x ∨ (r.run requests).AcceptsName request x := by
  constructor
  · rintro ⟨before, last, hprefix, haccepts⟩
    rcases List.prefix_concat_iff.mp hprefix with heq | hprefix
    · obtain ⟨rfl, hlast⟩ := List.append_inj' heq rfl
      cases hlast
      exact .inr haccepts
    · exact .inl ⟨before, last, hprefix, haccepts⟩
  · rintro (⟨before, last, hprefix, haccepts⟩ | haccepts)
    · exact ⟨before, last, hprefix.trans (List.prefix_append _ _), haccepts⟩
    · exact ⟨requests, request, List.prefix_rfl, haccepts⟩

/-- The names in use are those from before the run and those accepted in it. -/
theorem isTaken_run_iff (happ : r.Apart) (requests : List RegistryRequest) (x : String) :
    (r.run requests).isTaken x = true ↔ r.isTaken x = true ∨ r.AcceptedIn requests x := by
  induction requests using List.reverseRecOn with
  | nil => simp [AcceptedIn]
  | append_singleton requests request ih =>
    rw [run_concat, isTaken_step_iff (apart_run happ requests), ih, acceptedIn_concat, or_assoc]

def NamesProper (r : Registry) : Prop :=
  ∀ x, r.isTaken x = true → UnitExpr.isNameValue (.text x) = true

theorem NamesProper.of_acceptsName (h : r.NamesProper) (hx : r.AcceptsName request x) :
    UnitExpr.isNameValue (.text x) = true := by
  obtain ⟨name, bynames, haccepts, hx⟩ := hx
  cases haccepts with
  | register hparts | shorthand hparts =>
    rcases hx with rfl | hx
    · exact isNameValue_of_checkName hparts.proper
    · exact isNameValue_of_checkNames hparts.bynames_proper hx
  | registerAlias proper defined free =>
    rcases hx with rfl | hx
    · exact h x ((r.isTaken_iff x).mpr (.inl defined))
    · cases List.mem_singleton.mp hx
      exact isNameValue_of_checkName proper

theorem namesProper_run (happ : r.Apart) (h : r.NamesProper) (requests : List RegistryRequest) :
    (r.run requests).NamesProper := by
  induction requests using List.reverseRecOn with
  | nil => exact h
  | append_singleton requests request ih =>
    intro x hx
    rw [run_concat] at hx
    rcases (isTaken_step_iff (apart_run happ requests) request x).mp hx with hx | hx
    · exact ih x hx
    · exact ih.of_acceptsName hx

theorem namesProper_of_rows
    (hdefs : ∀ row ∈ r.definitions.rows, UnitExpr.isNameValue (.text row.1) = true)
    (haliases : ∀ row ∈ r.aliases.rows, UnitExpr.isNameValue (.text row.1) = true) :
    r.NamesProper := by
  intro x hx
  rcases (r.isTaken_iff x).mp hx with hx | hx
  · obtain ⟨d, hd⟩ := (r.definitions.contains_eq_true_iff x).mp hx
    exact hdefs _ (Table.mem_rows_of_get? hd)
  · obtain ⟨target, htarget⟩ := (r.aliases.contains_eq_true_iff x).mp hx
    exact haliases _ (Table.mem_rows_of_get? htarget)

theorem Start.namesProper (start : Start) : start.registry.NamesProper := by
  cases start with
  | empty kind =>
    exact namesProper_of_rows (by simp [registry, Table.empty]) (by simp [registry, Table.empty])
  | standard ns => cases ns <;> exact namesProper_of_rows (by decide +kernel) (by decide +kernel)

theorem register_of_taken (hx : r.isTaken x = true) (hmem : .text x ∈ v :: d.aliases) :
    ∃ e, r.register v d false = .error e ∧
      (¬Unshowable (v :: d.aliases) → e.kind = .registry) ∧
      (Unshowable (v :: d.aliases) → e = .numeralTooLong) := by
  obtain ⟨e, he⟩ := register_isError_iff.mpr (.inr ⟨rfl, x, hmem, hx⟩)
  refine ⟨e, he, fun hshown => (kind_of_register_error he).resolve_right hshown, fun hshown => ?_⟩
  rw [register_of_unshowable hshown] at he
  exact (Except.error.inj he).symm

/-- A target that is no text must be a possible key, and is then refused by its text. -/
theorem registerAlias_of_no_text (hname : UnitExpr.isNameValue (.text x) = true)
    (htext : ∀ s, canonical ≠ .text s) (overwrite : Bool) :
    r.registerAlias (.text x) canonical overwrite =
      if canonical.isHashable then
        if canonical.isPrintable then .error (.unknownName r.kind canonical.plainText)
        else .error .numeralTooLong
      else .error .operandType := by
  obtain ⟨y, hy, hcheck⟩ := checkName_of_isNameValue (r := r) hname
  cases hy
  unfold registerAlias
  rw [hcheck]
  change keyOf canonical >>= _ = _
  have hkey : keyOf canonical =
      if canonical.isHashable then .ok none else .error .operandType := by
    cases canonical with
    | text s => exact absurd rfl (htext s)
    | absent | number a | list items | map entries => rfl
  rw [hkey, Value.display]
  cases canonical.isHashable <;> cases canonical.isPrintable <;> rfl

theorem registerAlias_of_taken (hname : UnitExpr.isNameValue (.text x) = true)
    (hx : r.isTaken x = true) (canonical : Value) :
    ∃ e, r.registerAlias (.text x) canonical false = .error e ∧
      (canonical.isHashable = true → canonical.isPrintable = true → e.kind = .registry) ∧
      (canonical.isHashable = false → e = .operandType) ∧
      (canonical.isHashable = true → canonical.isPrintable = false → e = .numeralTooLong) := by
  by_cases htext : ∃ s, canonical = .text s
  · obtain ⟨s, rfl⟩ := htext
    obtain ⟨e, he⟩ := registerAlias_isError_iff.mpr (.inr (.inr ⟨rfl, hx⟩))
    exact ⟨e, he, fun _ _ => kind_of_registerAlias_error he, by simp [Value.isHashable],
      by simp [Value.isPrintable]⟩
  · rw [registerAlias_of_no_text hname fun s hs => htext ⟨s, hs⟩]
    cases canonical.isHashable <;> cases canonical.isPrintable <;> simp [Error.kind]

/-- Whatever requests follow, a name that was accepted once is refused to every request that
may not overwrite. The refusal is one of the registry, unless the first improper name beside it
cannot be shown, or the target given for it is no possible key or cannot be shown. -/
theorem taken_names_refused (start : Start) (requests : List RegistryRequest) (x : String)
    (hx : start.registry.isTaken x = true ∨ start.registry.AcceptedIn requests x) :
    let r := start.registry.run requests
    (∀ v d, .text x ∈ v :: d.aliases → ∃ e, r.register v d false = .error e ∧
      (¬Unshowable (v :: d.aliases) → e.kind = .registry) ∧
      (Unshowable (v :: d.aliases) → e = .numeralTooLong)) ∧
    ∀ canonical, ∃ e, r.registerAlias (.text x) canonical false = .error e ∧
      (canonical.isHashable = true → canonical.isPrintable = true → e.kind = .registry) ∧
      (canonical.isHashable = false → e = .operandType) ∧
      (canonical.isHashable = true → canonical.isPrintable = false → e = .numeralTooLong) := by
  intro r
  have htaken : r.isTaken x = true := (isTaken_run_iff start.apart requests x).mpr hx
  have hname := namesProper_run start.apart start.namesProper requests x htaken
  constructor
  · intro v d hmem
    exact register_of_taken htaken hmem
  · intro canonical
    exact registerAlias_of_taken hname htaken canonical

theorem demoted_name_refused :
    let start := Start.standard .algebraic
    let requests : List RegistryRequest :=
      [.register (.text "j") (.algebraic (.text "x^2+1")) none,
        .registerAlias (.text "j") (.text "i") (some true)]
    let r := start.registry.run requests
    start.registry.AcceptedIn requests "j" ∧ r.definitions.contains "j" = false ∧
      (∃ e, r.register (.text "j") (.algebraic (.text "x^2+1")) false = .error e ∧
        e.kind = .registry) ∧
      ∃ e, r.registerAlias (.text "j") (.text "i") false = .error e ∧ e.kind = .registry := by
  intro start requests r
  have haccepted : start.registry.AcceptedIn requests "j" := by
    refine ⟨[], _, ⟨_, rfl⟩, "j", [], .register ⟨rfl, rfl, rfl, .inr ?_⟩, .inl rfl⟩
    decide +kernel
  obtain ⟨hregister, halias⟩ := taken_names_refused start requests "j" (.inr haccepted)
  refine ⟨haccepted, by decide +kernel, ?_, ?_⟩
  · obtain ⟨e, he, hkind, -⟩ := hregister (.text "j") (.algebraic (.text "x^2+1")) (by simp)
    refine ⟨e, he, hkind ?_⟩
    rintro ⟨w, hfirst, -⟩
    cases hfirst
  · obtain ⟨e, he, hkind, -⟩ := halias (.text "i")
    exact ⟨e, he, hkind rfl (by simp [Value.isPrintable])⟩

/-- A name that was accepted is refused, but not by the registry, if it is to lead to a list. -/
theorem taken_name_refused_for_its_target :
    let r := (Start.empty "unit").registry
    let requests : List RegistryRequest := [.register (.text "a") (.algebraic (.text "x^2+1")) none]
    r.AcceptedIn requests "a" ∧
      (r.run requests).registerAlias (.text "a") (.list []) false = .error .operandType ∧
      Error.kind .operandType ≠ .registry := by
  intro r requests
  refine ⟨?_, rfl, by decide⟩
  refine ⟨[], _, ⟨_, rfl⟩, "a", [], .register ⟨rfl, rfl, rfl, .inr ?_⟩, .inl rfl⟩
  decide +kernel

end Registry

end QuantityCalculus
