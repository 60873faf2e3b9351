import QuantityCalculus.Proofs.Registry.Run

/-!
# Names as they are checked

A registry takes names as unchecked values. The names that pass are texts and are taken as
they are; the first one that does not pass is refused with an error that shows it, or with
the error of showing it.
-/
namespace QuantityCalculus

namespace Registry

variable {r : Registry} {v : Value} {vs : List Value} {x : String} {names : List String}

def refusal (r : Registry) (v : Value) : Error :=
  if v.isPrintable then .improperName r.kind v.plainText else .numeralTooLong

def firstImproper (vs : List Value) : Option Value := vs.find? fun v => !UnitExpr.isNameValue v

theorem firstImproper_eq_none_iff :
    firstImproper vs = none ↔ ∀ v ∈ vs, UnitExpr.isNameValue v = true := by
  simp [firstImproper]

theorem firstImproper_cons (v : Value) (vs : List Value) :
    firstImproper (v :: vs) = if UnitExpr.isNameValue v then firstImproper vs else some v := by
  unfold firstImproper
  rw [List.find?_cons]
  cases UnitExpr.isNameValue v <;> rfl

theorem checkName_of_isNameValue (hv : UnitExpr.isNameValue v = true) :
    ∃ x, v = .text x ∧ r.checkName v = .ok x := by
  cases v with
  | text x => exact ⟨x, rfl, if_pos hv⟩
  | absent | number a | list items | map entries => cases hv

theorem checkName_of_improper (hv : UnitExpr.isNameValue v = false) :
    r.checkName v = .error (r.refusal v) := by
  unfold refusal
  cases v with
  | text x => exact if_neg (by simpa [UnitExpr.isNameValue] using hv)
  | absent | number a | list items | map entries =>
    simp only [checkName, Value.display]
    split <;> rfl

theorem eq_text_of_checkName (h : r.checkName v = .ok x) : v = .text x := by
  cases hv : UnitExpr.isNameValue v with
  | true =>
    obtain ⟨y, rfl, hy⟩ := checkName_of_isNameValue (r := r) hv
    rw [hy] at h
    cases h
    rfl
  | false =>
    rw [checkName_of_improper hv] at h
    cases h

theorem isNameValue_of_checkName (h : r.checkName v = .ok x) :
    UnitExpr.isNameValue (.text x) = true := by
  obtain rfl := eq_text_of_checkName h
  cases hx : UnitExpr.isNameValue (.text x) with
  | true => rfl
  | false =>
    rw [checkName_of_improper hx] at h
    cases h

theorem checkNames_of_proper (h : ∀ v ∈ vs, UnitExpr.isNameValue v = true) :
    ∃ names, vs = names.map Value.text ∧ vs.mapM r.checkName = .ok names := by
  induction vs with
  | nil => exact ⟨[], rfl, rfl⟩
  | cons v rest ih =>
    obtain ⟨x, rfl, hx⟩ := checkName_of_isNameValue (r := r) (h v List.mem_cons_self)
    obtain ⟨names, hnames, hrest⟩ := ih fun w hw => h w (List.mem_cons_of_mem _ hw)
    refine ⟨x :: names, by rw [hnames, List.map_cons], ?_⟩
    rw [List.mapM_cons, hx, hrest]
    rfl

theorem checkNames_of_improper (hv : firstImproper vs = some v) :
    vs.mapM r.checkName = .error (r.refusal v) := by
  induction vs with
  | nil => cases hv
  | cons w rest ih =>
    rw [firstImproper_cons] at hv
    rw [List.mapM_cons]
    split at hv
    · rename_i hw
      obtain ⟨x, -, hx⟩ := checkName_of_isNameValue (r := r) hw
      rw [hx, ih hv]
      rfl
    · rename_i hw
      cases hv
      rw [checkName_of_improper (by simpa using hw)]
      rfl

theorem eq_texts_of_checkNames (h : vs.mapM r.checkName = .ok names) :
    vs = names.map Value.text := by
  cases hfirst : firstImproper vs with
  | none =>
    obtain ⟨names', htexts, hnames⟩ :=
      checkNames_of_proper (r := r) (firstImproper_eq_none_iff.mp hfirst)
    rw [hnames] at h
    cases h
    exact htexts
  | some v =>
    rw [checkNames_of_improper hfirst] at h
    cases h

theorem text_mem_iff_of_checkNames (h : vs.mapM r.checkName = .ok names) (x : String) :
    .text x ∈ vs ↔ x ∈ names := by
  rw [eq_texts_of_checkNames h]
  simp

theorem isNameValue_of_checkNames (h : vs.mapM r.checkName = .ok names) (hx : x ∈ names) :
    UnitExpr.isNameValue (.text x) = true := by
  cases hfirst : firstImproper vs with
  | none =>
    have hmem : .text x ∈ vs := (text_mem_iff_of_checkNames h x).mpr hx
    exact firstImproper_eq_none_iff.mp hfirst _ hmem
  | some v =>
    rw [checkNames_of_improper hfirst] at h
    cases h

end Registry

end QuantityCalculus
