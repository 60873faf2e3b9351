import QuantityCalculus.Proofs.Registry.Names
import QuantityCalculus.Proofs.Registry.Views

/-!
# Reading back what was written

After a registration its name and all its bynames lead to the definition, and a byname
registered later leads to what its target has. This fails in one case only: a name among its
own bynames loses the definition to the same write, and none of the names leads anywhere.
-/
namespace QuantityCalculus

namespace Registry

variable {r after : Registry} {name byname x canonical : String} {bynames : List String}
  {d : Definition}

/-- Looking up the name gives the definition and its canonical name. -/
structure LeadsTo (r : Registry) (x canonical : String) (d : Definition) : Prop where
  definition : r.get? x = some d
  canonicalName : r.canonicalName? x = some canonical

structure LeadsNowhere (r : Registry) (x : String) : Prop where
  definition : r.get? x = none
  canonicalName : r.canonicalName? x = none

theorem leadsTo_of_target (htarget : r.target x = canonical)
    (hd : r.definitions.get? canonical = some d) : r.LeadsTo x canonical d := by
  have hdefined : r.definitions.contains canonical = true :=
    (r.definitions.contains_eq_true_iff canonical).mpr ⟨d, hd⟩
  constructor
  · rw [get?, htarget, hd]
  · rw [canonicalName?, htarget, if_pos hdefined]

theorem leadsNowhere_of_target (htarget : r.target x = canonical)
    (hd : r.definitions.get? canonical = none) : r.LeadsNowhere x := by
  constructor
  · rw [get?, htarget, hd]
  · rw [canonicalName?, htarget, Table.contains, hd]
    rfl

/-- A write makes the name and its bynames lead to the name. -/
theorem Written.target_eq (hw : Written r name bynames after) (hx : x = name ∨ x ∈ bynames) :
    after.target x = name := by
  unfold target
  rw [hw.aliases]
  by_cases hbyname : x ∈ bynames
  · simp [hbyname]
  · have hname : x = name := hx.resolve_right hbyname
    simp [hname, hname ▸ hbyname]

theorem definition_write (r : Registry) (name : String) (d : Definition) (bynames : List String) :
    (r.write name d bynames).definitions.get? name =
      if name ∈ bynames then none else some d := by
  rw [write, definitions_redirectAll]
  simp

theorem write_leadsTo (hname : name ∉ bynames) (hx : x = name ∨ x ∈ bynames) :
    (r.write name d bynames).LeadsTo x name d := by
  apply leadsTo_of_target ((written_write r name d bynames).target_eq hx)
  rw [definition_write, if_neg hname]

theorem write_leadsNowhere (hname : name ∈ bynames) (hx : x = name ∨ x ∈ bynames) :
    (r.write name d bynames).LeadsNowhere x := by
  apply leadsNowhere_of_target ((written_write r name d bynames).target_eq hx)
  rw [definition_write, if_pos hname]

theorem target_redirect (r : Registry) (byname name : String) :
    (r.redirect byname name).target byname = name := by
  simp [target, redirect]

theorem redirect_leadsTo (hne : byname ≠ name) (hd : r.definitions.get? name = some d) :
    (r.redirect byname name).LeadsTo byname name d := by
  apply leadsTo_of_target (r.target_redirect byname name)
  simp [redirect, Ne.symm hne, hd]

theorem redirect_leadsNowhere (r : Registry) (name : String) :
    (r.redirect name name).LeadsNowhere name := by
  apply leadsNowhere_of_target (r.target_redirect name name)
  simp [redirect]

/-- After an accepted registration the name and the aliases lead to the definition, unless the
name is one of the aliases, and an accepted alias leads to what its target had, unless it is
the target itself. In the excepted cases these names lead nowhere. -/
theorem registration_reads_back (start : Start) (requests : List RegistryRequest) :
    let r := start.registry.run requests
    (∀ v d overwrite after, r.register v d overwrite = .ok after →
      ∃ name, v = .text name ∧ ∀ x, x = name ∨ .text x ∈ d.aliases →
        (.text name ∉ d.aliases → after.LeadsTo x name d) ∧
          (.text name ∈ d.aliases → after.LeadsNowhere x)) ∧
      ∀ v canonical overwrite after, r.registerAlias v canonical overwrite = .ok after →
        ∃ byname name d, v = .text byname ∧ canonical = .text name ∧ r.get? name = some d ∧
          (byname ≠ name → after.LeadsTo byname name d) ∧
            (byname = name → after.LeadsNowhere byname) := by
  intro r
  constructor
  · intro v d overwrite after h
    obtain ⟨name, bynames, hname, hbynames, -, rfl⟩ := register_eq_ok_iff.mp h
    refine ⟨name, eq_text_of_checkName hname, fun x hx => ?_⟩
    rw [text_mem_iff_of_checkNames hbynames] at hx ⊢
    exact ⟨fun hown => write_leadsTo hown hx, fun hown => write_leadsNowhere hown hx⟩
  · intro v canonical overwrite after h
    obtain ⟨byname, name, rfl, hbyname, hdefined, -, rfl⟩ := registerAlias_eq_ok_iff.mp h
    obtain ⟨d, hd⟩ := (r.definitions.contains_eq_true_iff name).mp hdefined
    have hget := (apart_run start.apart requests).get?_of_contains hdefined
    refine ⟨byname, name, d, eq_text_of_checkName hbyname, rfl, hget.trans hd, ?_, ?_⟩
    · exact fun hne => redirect_leadsTo hne hd
    · rintro rfl
      exact r.redirect_leadsNowhere byname

theorem foot_and_metre_read_back :
    let r := (Start.standard .physical).registry
    let foot : Definition :=
      .physical { dimensions := .ofList [("m", 1)], aliases := [.text "feet", .text "meter"] }
    (∃ after, r.register (.text "foot") foot true = .ok after ∧
        after.LeadsTo "foot" "foot" foot ∧ after.LeadsTo "meter" "foot" foot) ∧
      ∃ after metre, r.registerAlias (.text "s") (.text "m") true = .ok after ∧
        r.get? "m" = some metre ∧ after.LeadsTo "s" "m" metre := by
  intro r foot
  have hreads := registration_reads_back (.standard .physical) []
  constructor
  · have hregister : r.register (.text "foot") foot true =
        .ok (r.write "foot" foot ["feet", "meter"]) := rfl
    obtain ⟨name, hname, h⟩ := hreads.1 _ _ _ _ hregister
    cases hname
    have hown : .text "foot" ∉ foot.aliases := by simp [foot, Definition.aliases]
    have hmeter : .text "meter" ∈ foot.aliases := by simp [foot, Definition.aliases]
    exact ⟨_, hregister, (h "foot" (.inl rfl)).1 hown, (h "meter" (.inr hmeter)).1 hown⟩
  · have halias : r.registerAlias (.text "s") (.text "m") true = .ok (r.redirect "s" "m") := rfl
    obtain ⟨byname, name, metre, hbyname, hname, hmetre, hleads, -⟩ := hreads.2 _ _ _ _ halias
    cases hbyname
    cases hname
    exact ⟨_, metre, halias, hmetre, hleads (by decide)⟩

/-- A new unit that lists its own name among its aliases is accepted and cannot be looked up
afterwards, and neither can a defined unit that was made an alias of itself. -/
theorem own_byname_leads_nowhere :
    let r := (Start.empty "unit").registry
    let unit : Definition :=
      .physical { dimensions := .ofList [("a", 1)], aliases := [.text "a"] }
    let units := (Start.standard .physical).registry
    (∃ after, r.register (.text "a") unit false = .ok after ∧ after.LeadsNowhere "a") ∧
      ∃ after, units.registerAlias (.text "m") (.text "m") true = .ok after ∧
        after.LeadsNowhere "m" := by
  intro r unit units
  constructor
  · exact ⟨r.write "a" unit ["a"], rfl, rfl, rfl⟩
  · exact ⟨units.redirect "m" "m", rfl, rfl, rfl⟩

end Registry

end QuantityCalculus
