import QuantityCalculus.Proofs.Registry.ReadBack
import QuantityCalculus.Proofs.Registry.Unmentioned

/-!
# What overwriting leaves alone

A write that may overwrite can reach names that it does not mention, but only through their
target. Where such a name leads to is never changed. So its look-up stays as it was if the target
is not mentioned either; it gives the new definition if the target is the name that is defined
anew, and nothing if the target has become a byname.
-/
namespace QuantityCalculus

namespace Registry

variable {r : Registry} {name byname x : String} {bynames : List String} {d : Definition}

/-- A name that leads to the defined name follows its definition. -/
theorem write_followed (hx : x ∉ name :: bynames) (htarget : r.target x = name)
    (hname : name ∉ bynames) : (r.write name d bynames).LeadsTo x name d := by
  have hsame := (sameBut_write r name d bynames).target_eq hx
  apply leadsTo_of_target (hsame.trans htarget)
  rw [definition_write, if_neg hname]

/-- A name that leads to a byname has lost its definition. -/
theorem write_stranded (hx : x ∉ name :: bynames) (htarget : r.target x ∈ bynames) :
    (r.write name d bynames).LeadsNowhere x := by
  have hsame := (sameBut_write r name d bynames).target_eq hx
  apply leadsNowhere_of_target hsame
  rw [write, definitions_redirectAll, if_pos htarget]

theorem redirect_stranded (hx : x ≠ byname) (htarget : r.target x = byname) :
    (r.redirect byname name).LeadsNowhere x := by
  have hsame := (sameBut_redirect r byname name).target_eq (List.mem_singleton.not.mpr hx)
  apply leadsNowhere_of_target (hsame.trans htarget)
  simp [redirect]

/-- A name that a registration does not mention and that led to a definition is looked up as
before, unless the registration mentions its canonical name. In that case it gets the new
definition under the same name if this is the name that was registered, and nothing if it was
made an alias. -/
structure LeavesAlone (r after : Registry) (v : Value) (d : Definition) : Prop where
  kept : ∀ x canonical, .text x ∉ v :: d.aliases → r.canonicalName? x = some canonical →
    .text canonical ∉ v :: d.aliases → r.LooksAlike after x
  followed : ∀ x name, .text x ∉ v :: d.aliases → r.canonicalName? x = some name →
    v = .text name → .text name ∉ d.aliases → after.LeadsTo x name d
  stranded : ∀ x canonical, .text x ∉ v :: d.aliases → r.canonicalName? x = some canonical →
    .text canonical ∈ d.aliases → after.LeadsNowhere x

theorem leavesAlone_of_register {after : Registry} {v : Value} {overwrite : Bool}
    (h : r.register v d overwrite = .ok after) : r.LeavesAlone after v d := by
  obtain ⟨name, bynames, hname, hbynames, -, rfl⟩ := register_eq_ok_iff.mp h
  have hmentioned : ∀ {x}, .text x ∈ v :: d.aliases ↔ x ∈ name :: bynames := by
    intro x
    rw [eq_text_of_checkName hname, eq_texts_of_checkNames hbynames]
    simp
  constructor
  · intro x canonical hx hcanonical hnot
    rw [hmentioned] at hx hnot
    obtain ⟨rfl, -⟩ := canonicalName?_eq_some_iff.mp hcanonical
    exact (sameBut_write r name d bynames).looksAlike hx hnot
  · intro x target hx hcanonical hv hown
    rw [hmentioned] at hx
    cases hv.symm.trans (eq_text_of_checkName hname)
    obtain ⟨htarget, -⟩ := canonicalName?_eq_some_iff.mp hcanonical
    rw [text_mem_iff_of_checkNames hbynames] at hown
    exact write_followed hx htarget hown
  · intro x canonical hx hcanonical hbyname
    rw [hmentioned] at hx
    obtain ⟨rfl, -⟩ := canonicalName?_eq_some_iff.mp hcanonical
    rw [text_mem_iff_of_checkNames hbynames] at hbyname
    exact write_stranded hx hbyname

/-- In every state of a registry, an accepted registration leaves alone what it does not mention,
and an accepted alias leaves all other names alone but those that led to the alias as a defined
name. -/
theorem overwriting_leaves_others_alone (r : Registry) :
    (∀ v d overwrite after, r.register v d overwrite = .ok after → r.LeavesAlone after v d) ∧
      ∀ v target overwrite after, r.registerAlias v target overwrite = .ok after →
        ∀ x canonical, .text x ≠ v → r.canonicalName? x = some canonical →
          (.text canonical ≠ v → r.LooksAlike after x) ∧
            (.text canonical = v → after.LeadsNowhere x) := by
  constructor
  · intro v d overwrite after h
    exact leavesAlone_of_register h
  · intro v target overwrite after h x canonical hx hcanonical
    obtain ⟨byname, name, rfl, hbyname, -, -, rfl⟩ := registerAlias_eq_ok_iff.mp h
    cases eq_text_of_checkName hbyname
    obtain ⟨htarget, -⟩ := canonicalName?_eq_some_iff.mp hcanonical
    have hx : x ≠ byname := fun heq => hx (congrArg Value.text heq)
    constructor
    · intro hne
      refine (sameBut_redirect r byname name).looksAlike (List.mem_singleton.not.mpr hx) ?_
      rw [htarget, List.mem_singleton]
      exact fun heq => hne (congrArg Value.text heq)
    · intro heq
      cases heq
      exact redirect_stranded hx htarget

/-- The metre is defined anew and takes the name `second` from the second. Its other names follow,
the kilogram stays, and so does the second under its own name. When the second becomes an alias
afterwards, the metre is not concerned. -/
theorem kilogram_left_alone_by_new_metre :
    let r := (Start.standard .physical).registry
    let metre : Definition :=
      .physical { dimensions := .ofList [("foot", 1)], aliases := [.text "second"] }
    ∃ after, r.register (.text "m") metre true = .ok after ∧ after.LeadsTo "meter" "m" metre ∧
      r.LooksAlike after "kilogram" ∧ r.LooksAlike after "s" ∧
      ∃ last, after.registerAlias (.text "s") (.text "m") true = .ok last ∧
        after.LooksAlike last "meter" := by
  intro r metre
  have hregister : r.register (.text "m") metre true = .ok (r.write "m" metre ["second"]) := rfl
  have halias : (r.write "m" metre ["second"]).registerAlias (.text "s") (.text "m") true =
      .ok ((r.write "m" metre ["second"]).redirect "s" "m") := rfl
  have hmentioned : ∀ x, .text x ∈ Value.text "m" :: metre.aliases ↔ x = "m" ∨ x = "second" := by
    simp [metre, Definition.aliases]
  have hleft := (overwriting_leaves_others_alone r).1 _ _ _ _ hregister
  refine ⟨_, hregister, ?_, ?_, ?_, _, halias, ?_⟩
  · exact hleft.followed "meter" "m" (by rw [hmentioned]; decide) rfl rfl
      (by simp [metre, Definition.aliases])
  · exact hleft.kept "kilogram" "kg" (by rw [hmentioned]; decide) rfl (by rw [hmentioned]; decide)
  · exact hleft.kept "s" "s" (by rw [hmentioned]; decide) rfl (by rw [hmentioned]; decide)
  · exact ((overwriting_leaves_others_alone _).2 _ _ _ _ halias "meter" "m" (by simp) rfl).1
      (by simp)

end Registry

end QuantityCalculus
