import QuantityCalculus.Proofs.Registry.InPlace
import QuantityCalculus.Proofs.Registry.Names

/-!
# Refused writes

A registration is refused exactly if one of its names is improper, or if one of them is in
use and may not be overwritten; a byname is refused in the same cases, and if it would lead
to a name without a definition. Wherever the registration stops, no row has been touched.
-/
namespace QuantityCalculus

open scoped NaturalPowers

namespace Registry

variable {r : Registry} {v w : Value} {d : Definition} {overwrite : Bool} {e : Error}
  {names : List String}

/-- The first of some values that is no name cannot be shown either. -/
def Unshowable (vs : List Value) : Prop := ∃ v, firstImproper vs = some v ∧ v.isPrintable = false

theorem kind_refusal (h : w.isPrintable = true) : (r.refusal w).kind = .registry := by
  rw [refusal, if_pos h]
  rfl

theorem improper_of_firstImproper {vs : List Value} (h : firstImproper vs = some w) :
    w ∈ vs ∧ UnitExpr.isNameValue w = false := by
  have himproper := List.find?_some h
  exact ⟨List.mem_of_find?_eq_some h, by simpa using himproper⟩

theorem checkFree_eq_error (h : r.checkFree names = .error e) : e.kind = .registry := by
  unfold checkFree at h
  split at h
  · cases h
    rfl
  · cases h

theorem checkFree_isError_iff :
    (∃ e, r.checkFree names = .error e) ↔ ∃ x ∈ names, r.isTaken x = true := by
  cases hfree : r.checkFree names with
  | error e =>
    have hnot : ¬∀ x ∈ names, r.isTaken x = false := fun h => by
      rw [(r.checkFree_eq_ok_iff names).mpr h] at hfree
      cases hfree
    simpa using hnot
  | ok u =>
    have hall := (r.checkFree_eq_ok_iff names).mp hfree
    simpa using hall

theorem register_of_improper (h : firstImproper (v :: d.aliases) = some w) :
    r.register v d overwrite = .error (r.refusal w) := by
  unfold register
  rw [firstImproper_cons] at h
  split at h
  · rename_i hv
    obtain ⟨x, -, hx⟩ := checkName_of_isNameValue (r := r) hv
    rw [hx, checkNames_of_improper h]
    rfl
  · rename_i hv
    cases h
    rw [checkName_of_improper (by simpa using hv)]
    rfl

theorem register_of_proper (overwrite : Bool) (h : firstImproper (v :: d.aliases) = none) :
    ∃ name bynames, v :: d.aliases = (name :: bynames).map Value.text ∧
      r.register v d overwrite =
        if overwrite then .ok (r.write name d bynames)
        else r.checkFree (name :: bynames) >>= fun _ => .ok (r.write name d bynames) := by
  rw [firstImproper_eq_none_iff, List.forall_mem_cons] at h
  obtain ⟨name, hname, hcheck⟩ := checkName_of_isNameValue (r := r) h.1
  obtain ⟨bynames, hbynames, hchecks⟩ := checkNames_of_proper (r := r) h.2
  refine ⟨name, bynames, by rw [hname, hbynames, List.map_cons], ?_⟩
  unfold register
  rw [hcheck, hchecks]
  rfl

theorem register_isError_iff :
    (∃ e, r.register v d overwrite = .error e) ↔
      (∃ w ∈ v :: d.aliases, UnitExpr.isNameValue w = false) ∨
        overwrite = false ∧ ∃ x, .text x ∈ v :: d.aliases ∧ r.isTaken x = true := by
  cases hfirst : firstImproper (v :: d.aliases) with
  | some w =>
    rw [register_of_improper hfirst]
    exact iff_of_true ⟨_, rfl⟩ (.inl ⟨w, improper_of_firstImproper hfirst⟩)
  | none =>
    have hproper : ¬∃ w ∈ v :: d.aliases, UnitExpr.isNameValue w = false := by
      simpa using firstImproper_eq_none_iff.mp hfirst
    obtain ⟨name, bynames, hnames, hregister⟩ := register_of_proper (r := r) overwrite hfirst
    rw [or_iff_right hproper, hregister, hnames]
    cases overwrite with
    | true => simp
    | false => simp [bind_ok_eq_error_iff, checkFree_isError_iff]

theorem kind_of_register_error (h : r.register v d overwrite = .error e) :
    e.kind = .registry ∨ Unshowable (v :: d.aliases) := by
  cases hfirst : firstImproper (v :: d.aliases) with
  | some w =>
    rw [register_of_improper hfirst] at h
    cases h
    cases hshown : w.isPrintable with
    | true => exact .inl (kind_refusal hshown)
    | false => exact .inr ⟨w, hfirst, hshown⟩
  | none =>
    obtain ⟨name, bynames, -, hregister⟩ := register_of_proper (r := r) overwrite hfirst
    rw [hregister] at h
    split at h
    · cases h
    · exact .inl (checkFree_eq_error (bind_ok_eq_error_iff.mp h))

theorem register_of_unshowable (h : Unshowable (v :: d.aliases)) :
    r.register v d overwrite = .error .numeralTooLong := by
  obtain ⟨w, hfirst, hshown⟩ := h
  rw [register_of_improper hfirst, refusal, hshown]
  rfl

theorem registerAlias_texts (r : Registry) (byname name : String) (overwrite : Bool) :
    r.registerAlias (.text byname) (.text name) overwrite =
      if UnitExpr.isNameValue (.text byname) then
        if r.definitions.contains name then
          if !overwrite && r.isTaken byname then .error (.aliasTaken byname)
          else .ok (r.redirect byname name)
        else .error (.unknownName r.kind name)
      else .error (.improperName r.kind byname) := by
  unfold registerAlias
  cases hproper : UnitExpr.isNameValue (.text byname) with
  | false =>
    rw [checkName_of_improper hproper]
    rfl
  | true =>
    obtain ⟨x, hx, hcheck⟩ := checkName_of_isNameValue (r := r) hproper
    cases hx
    rw [hcheck]
    change (if !r.definitions.contains name then _ else _) = _
    cases r.definitions.contains name <;> rfl

theorem registerAlias_isError_iff {byname name : String} :
    (∃ e, r.registerAlias (.text byname) (.text name) overwrite = .error e) ↔
      UnitExpr.isNameValue (.text byname) = false ∨ r.definitions.contains name = false ∨
        overwrite = false ∧ r.isTaken byname = true := by
  rw [registerAlias_texts]
  cases UnitExpr.isNameValue (.text byname) <;> cases r.definitions.contains name <;>
    cases overwrite <;> cases r.isTaken byname <;> simp

theorem kind_of_registerAlias_error {byname name : String}
    (h : r.registerAlias (.text byname) (.text name) overwrite = .error e) :
    e.kind = .registry := by
  rw [registerAlias_texts] at h
  split at h
  · split at h
    · split at h
      · cases h
        rfl
      · cases h
    · cases h
      rfl
  · cases h
    rfl

/-- Writes are refused exactly for improper names, for names in use that may not be
overwritten and for bynames of names without a definition, and a refused write leaves the
registry as it was. The error is one of the registry unless the first improper name cannot
be shown. -/
theorem refused_writes_change_nothing (r : Registry) :
    (∀ (v : Value) (d : Definition) (overwrite : Bool),
      (InPlace.register v d overwrite).run r = r.settled (r.register v d overwrite) ∧
      ((∃ e, r.register v d overwrite = .error e) ↔
        (∃ w ∈ v :: d.aliases, UnitExpr.isNameValue w = false) ∨
          overwrite = false ∧ ∃ x, .text x ∈ v :: d.aliases ∧ r.isTaken x = true) ∧
      (Unshowable (v :: d.aliases) → r.register v d overwrite = .error .numeralTooLong) ∧
      ∀ e, r.register v d overwrite = .error e →
        e.kind = .registry ∨ Unshowable (v :: d.aliases)) ∧
    ∀ (byname name : String) (overwrite : Bool),
      (InPlace.registerAlias byname name overwrite).run r =
        r.settled (r.registerAlias (.text byname) (.text name) overwrite) ∧
      ((∃ e, r.registerAlias (.text byname) (.text name) overwrite = .error e) ↔
        UnitExpr.isNameValue (.text byname) = false ∨ r.definitions.contains name = false ∨
          overwrite = false ∧ r.isTaken byname = true) ∧
      ∀ e, r.registerAlias (.text byname) (.text name) overwrite = .error e →
        e.kind = .registry := by
  constructor
  · intro v d overwrite
    exact ⟨InPlace.run_register v d overwrite r, register_isError_iff, register_of_unshowable,
      fun e => kind_of_register_error⟩
  · intro byname name overwrite
    exact ⟨InPlace.run_registerAlias byname name overwrite r, registerAlias_isError_iff,
      fun e => kind_of_registerAlias_error⟩

theorem kilometre_refused_for_name_in_use :
    let r := (Start.standard .physical).registry
    let kilometre : Definition :=
      .physical { dimensions := .ofList [("m", 1)], aliases := [.text "kilometer", .text "meter"] }
    ∃ e, e.kind = .registry ∧ (InPlace.register (.text "km") kilometre false).run r = .error e r := by
  intro r kilometre
  obtain ⟨hrun, hrefused, -, hkind⟩ :=
    (refused_writes_change_nothing r).1 (.text "km") kilometre false
  have hmeter : .text "meter" ∈ Value.text "km" :: kilometre.aliases := by
    simp [kilometre, Definition.aliases]
  obtain ⟨e, he⟩ := hrefused.mpr (.inr ⟨rfl, "meter", hmeter, by decide +kernel⟩)
  have hshowable : ¬Unshowable (.text "km" :: kilometre.aliases) := by
    rintro ⟨w, hfirst, -⟩
    cases hfirst
  refine ⟨e, (hkind e he).resolve_right hshowable, ?_⟩
  rw [hrun, he]
  rfl

/-- A value that is no name is not refused by the registry if it is too long to be shown. -/
theorem unshowable_name_is_no_registry_error :
    let r := (Start.empty "unit").registry
    let name := Value.integer (10 ^ Text.digitLimit)
    UnitExpr.isNameValue name = false ∧
      r.register name (.other .absent) false = .error .numeralTooLong ∧
      Error.kind .numeralTooLong ≠ .registry := by
  intro r name
  have hshown : name.isPrintable = false := by
    simp [name, Value.isPrintable, Number.Printable, Text.not_hasNumeral_ten_pow]
  exact ⟨rfl, register_of_unshowable ⟨name, rfl, hshown⟩, by decide⟩

end Registry

end QuantityCalculus
