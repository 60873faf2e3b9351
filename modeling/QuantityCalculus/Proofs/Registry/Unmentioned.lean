import QuantityCalculus.Proofs.Registry.Aliases
import QuantityCalculus.Proofs.Registry.Names

/-!
# Names that a write does not mention

A write touches the rows of its own names only, yet it could change where others lead, since
looking up follows one alias. Whatever leads anywhere leads by names in use, and a write that
may not overwrite takes free names only. So nothing that was looked up before passes through
the new names, and every name that the write does not mention is looked up as before.
-/
namespace QuantityCalculus

namespace Registry

variable {r after : Registry} {name byname x : String} {names bynames : List String}
  {d : Definition}

/-- Every alias leads to a name in use, with or without a definition. -/
def TargetsTaken (r : Registry) : Prop :=
  ∀ byname target, r.aliases.get? byname = some target → r.isTaken target = true

structure LooksAlike (r after : Registry) (x : String) : Prop where
  definition : after.get? x = r.get? x
  canonicalName : after.canonicalName? x = r.canonicalName? x

/-- The rows of all other names are the same in both tables. -/
structure SameBut (r after : Registry) (names : List String) : Prop where
  definitions : ∀ x, x ∉ names → after.definitions.get? x = r.definitions.get? x
  aliases : ∀ x, x ∉ names → after.aliases.get? x = r.aliases.get? x

theorem sameBut_write (r : Registry) (name : String) (d : Definition) (bynames : List String) :
    SameBut r (r.write name d bynames) (name :: bynames) := by
  constructor
  · intro x hx
    simp only [List.mem_cons, not_or] at hx
    rw [write, definitions_redirectAll, if_neg hx.2, Table.get?_put, if_neg hx.1]
  · intro x hx
    simp only [List.mem_cons, not_or] at hx
    rw [write, get?_redirectAll, if_neg hx.2, Table.get?_erase, if_neg hx.1]

theorem sameBut_redirect (r : Registry) (byname name : String) :
    SameBut r (r.redirect byname name) [byname] := by
  constructor
  · intro x hx
    rw [redirect, Table.get?_erase, if_neg (List.mem_singleton.not.mp hx)]
  · intro x hx
    rw [redirect, Table.get?_put, if_neg (List.mem_singleton.not.mp hx)]

theorem SameBut.target_eq (h : SameBut r after names) (hx : x ∉ names) :
    after.target x = r.target x := by
  rw [target, h.aliases x hx]
  rfl

/-- A look-up depends on the rows of the name and of what the name leads to. -/
theorem SameBut.looksAlike (h : SameBut r after names) (hx : x ∉ names)
    (htarget : r.target x ∉ names) : r.LooksAlike after x := by
  have hsame := h.target_eq hx
  constructor
  · rw [get?, hsame, h.definitions _ htarget]
    rfl
  · rw [canonicalName?, hsame, Table.contains, h.definitions _ htarget]
    rfl

theorem TargetsTaken.target_notMem (h : r.TargetsTaken) (hfree : r.MayWrite false names)
    (hx : x ∉ names) : r.target x ∉ names := by
  have hfree : ∀ name ∈ names, r.isTaken name = false := hfree.resolve_left (by decide)
  unfold target
  cases halias : r.aliases.get? x with
  | none => exact hx
  | some target =>
    intro hmem
    have htaken := h x target halias
    rw [Option.getD_some] at hmem
    rw [hfree target hmem] at htaken
    cases htaken

theorem SameBut.looksAlike_of_free (h : SameBut r after names) (htargets : r.TargetsTaken)
    (hfree : r.MayWrite false names) (hx : x ∉ names) : r.LooksAlike after x :=
  h.looksAlike hx (htargets.target_notMem hfree hx)

theorem Written.targetsTaken (hw : Written r name bynames after) (h : r.TargetsTaken) :
    after.TargetsTaken := by
  intro byname target halias
  rw [hw.isTaken_iff]
  rw [hw.aliases] at halias
  split at halias
  · cases halias
    exact .inl rfl
  · split at halias
    · cases halias
    · exact .inr (.inr (h byname target halias))

theorem Start.targetsTaken (start : Start) : start.registry.TargetsTaken := by
  intro byname target halias
  have hdefined := start.aliasesLead byname target halias
  exact (isTaken_iff _ target).mpr (.inl hdefined)

theorem targetsTaken_run (happ : r.Apart) (h : r.TargetsTaken) (requests : List RegistryRequest) :
    (r.run requests).TargetsTaken :=
  run_induction happ h (fun _ _ _ _ h hw => hw.targetsTaken h) requests

/-- In every state of a run, a write that may not overwrite leaves the look-up of every name
that it does not mention as it was. -/
theorem unmentioned_names_look_alike (start : Start) (requests : List RegistryRequest) :
    let r := start.registry.run requests
    (∀ v d after, r.register v d false = .ok after →
      ∀ x, .text x ∉ v :: d.aliases → r.LooksAlike after x) ∧
      ∀ v canonical after, r.registerAlias v canonical false = .ok after →
        ∀ x, .text x ≠ v → r.LooksAlike after x := by
  intro r
  have htargets : r.TargetsTaken := targetsTaken_run start.apart start.targetsTaken requests
  constructor
  · intro v d after h x hx
    obtain ⟨name, bynames, hname, hbynames, hfree, rfl⟩ := register_eq_ok_iff.mp h
    have hmentioned : x ∉ name :: bynames := by
      rw [eq_text_of_checkName hname, eq_texts_of_checkNames hbynames] at hx
      simpa using hx
    exact (sameBut_write r name d bynames).looksAlike_of_free htargets hfree hmentioned
  · intro v canonical after h x hx
    obtain ⟨byname, name, rfl, hbyname, -, hfree, rfl⟩ := registerAlias_eq_ok_iff.mp h
    have hmentioned : x ∉ [byname] := by
      rw [eq_text_of_checkName hbyname] at hx
      simpa using hx
    exact (sameBut_redirect r byname name).looksAlike_of_free htargets hfree hmentioned

/-- Once `m` has become a byname of `s`, its byname `meter` leads nowhere, and it still does
after new names were registered without overwriting. -/
theorem meter_looks_alike_after_new_names :
    let r := (Start.standard .physical).registry.run
      [.registerAlias (.text "m") (.text "s") (some true)]
    let foot : Definition :=
      .physical { dimensions := .ofList [("s", 1)], aliases := [.text "feet"] }
    r.canonicalName? "meter" = none ∧
      (∃ after, r.register (.text "foot") foot false = .ok after ∧ r.LooksAlike after "meter") ∧
      ∃ after, r.registerAlias (.text "sec") (.text "s") false = .ok after ∧
        r.LooksAlike after "meter" := by
  intro r foot
  obtain ⟨hregister, halias⟩ := unmentioned_names_look_alike (.standard .physical)
    [.registerAlias (.text "m") (.text "s") (some true)]
  have hfoot : r.register (.text "foot") foot false = .ok (r.write "foot" foot ["feet"]) := rfl
  have hsec : r.registerAlias (.text "sec") (.text "s") false = .ok (r.redirect "sec" "s") := rfl
  refine ⟨rfl, ⟨_, hfoot, hregister _ _ _ hfoot "meter" ?_⟩, _, hsec, halias _ _ _ hsec "meter" ?_⟩
  · simp [foot, Definition.aliases]
  · simp

end Registry

end QuantityCalculus
