import QuantityCalculus.Proofs.Registry.ReadBack
import QuantityCalculus.Proofs.UnitExpr.Canonical

/-!
# Symbols as names

The names that registries take are the unit expressions that denote themselves: a text is a
name exactly if it is read as its own first power. No other unit expression is its own symbol,
whatever blanks, signs or exponents it has, since reading gives exponents to names only. So
every symbol that is read can be registered.
-/
namespace QuantityCalculus

namespace UnitExpr

variable {s x : String} {v : Value} {m : DimensionMap}

theorem join_first_power (s : String) :
    Layout.plain.join ([(s, 1)].map Layout.plain.factor) = s := by
  simp [Layout.join, Layout.factor]

theorem readValue_name (h : isName s.toList = true) :
    readValue (.text s) = .ok (.ofList [(s, 1)]) := by
  have hone : Text.HasNumeral 1 := by decide +kernel
  have hwritable : ∀ p ∈ [(s, (1 : Int))], Writable p :=
    List.forall_mem_singleton.mpr ⟨h, hone⟩
  have hread := readValue_join hwritable
  rwa [join_first_power] at hread

/-- Whatever is read, text or not, only names are given exponents. -/
theorem named_of_read (h : readValue v = .ok m) : m.Named := by
  cases v with
  | text s => exact named_of_readValue h
  | absent | number a | list items | map entries =>
    -- a value that is no text is vacant, or it is not read
    unfold readValue at h
    split at h
    · cases h
      intro x hx
      cases hx
    · cases h

theorem isNameValue_of_mem_symbols (h : readValue v = .ok m) (hx : x ∈ m.symbols) :
    isNameValue (.text x) = true := named_of_read h x hx

theorem isNameValue_iff_reads_itself :
    isNameValue (.text s) = true ↔ ∃ m, readValue (.text s) = .ok m ∧ m.entries = [(s, 1)] := by
  constructor
  · intro h
    exact ⟨_, readValue_name h, rfl⟩
  · rintro ⟨m, hread, hentries⟩
    refine isNameValue_of_mem_symbols hread ?_
    rw [DimensionMap.symbols, hentries]
    exact List.mem_cons_self

end UnitExpr

namespace Registry

variable {x : String}

/-- Every registry takes the name if it may be written: for a definition, to which the name
leads from then on, and for a defined name. -/
structure Registrable (x : String) : Prop where
  definition : ∀ (r : Registry) (d : Definition) (overwrite : Bool), d.aliases = [] →
    r.MayWrite overwrite [x] →
      ∃ after, r.register (.text x) d overwrite = .ok after ∧ after.LeadsTo x x d
  byname : ∀ (r : Registry) (name : String) (overwrite : Bool),
    r.definitions.contains name = true → r.MayWrite overwrite [x] →
      ∃ after, r.registerAlias (.text x) (.text name) overwrite = .ok after ∧
        after.target x = name

theorem checkName_text (r : Registry) (h : UnitExpr.isNameValue (.text x) = true) :
    r.checkName (.text x) = .ok x := if_pos h

theorem registrable_of_isNameValue (h : UnitExpr.isNameValue (.text x) = true) :
    Registrable x := by
  constructor
  · intro r d overwrite haliases hmay
    have hbynames : d.aliases.mapM r.checkName = .ok [] := by
      rw [haliases]
      rfl
    refine ⟨r.write x d [], ?_, write_leadsTo List.not_mem_nil (.inl rfl)⟩
    exact register_eq_ok_iff.mpr ⟨x, [], r.checkName_text h, hbynames, hmay, rfl⟩
  · intro r name overwrite hdefined hmay
    refine ⟨r.redirect x name, ?_, r.target_redirect x name⟩
    exact registerAlias_eq_ok_iff.mpr
      ⟨x, name, rfl, r.checkName_text h, hdefined, hmay, rfl⟩

theorem isNameValue_of_registrable (h : Registrable x) :
    UnitExpr.isNameValue (.text x) = true := by
  obtain ⟨after, hafter, -⟩ := h.definition ⟨"unit", .empty, .empty⟩ (.other .absent) true rfl
    (.inl rfl)
  obtain ⟨name, bynames, hname, -⟩ := register_eq_ok_iff.mp hafter
  cases eq_text_of_checkName hname
  exact isNameValue_of_checkName hname

/-- The texts that registries take as names are those that are read as their own first power,
and every symbol that is read is such a text. -/
theorem names_denote_themselves :
    (∀ s : String,
      (UnitExpr.isNameValue (.text s) = true ↔
        ∃ m, UnitExpr.readValue (.text s) = .ok m ∧ m.entries = [(s, 1)]) ∧
      (UnitExpr.isNameValue (.text s) = true ↔ Registrable s)) ∧
    ∀ (v : Value) (m : DimensionMap), UnitExpr.readValue v = .ok m → ∀ x ∈ m.symbols,
      UnitExpr.isNameValue (.text x) = true ∧ Registrable x := by
  constructor
  · intro s
    exact ⟨UnitExpr.isNameValue_iff_reads_itself,
      ⟨registrable_of_isNameValue, isNameValue_of_registrable⟩⟩
  · intro v m hread x hx
    have hname := UnitExpr.isNameValue_of_mem_symbols hread hx
    exact ⟨hname, registrable_of_isNameValue hname⟩

theorem metre_before_blank_is_no_name :
    let metre := DimensionMap.ofList [("m", 1)]
    UnitExpr.readValue (.text "m ") = .ok metre ∧ Registrable "m" ∧ ¬Registrable "m " := by
  intro metre
  have hread : UnitExpr.readValue (.text "m ") = .ok metre := by
    cbv
  have hm := (names_denote_themselves.2 _ metre hread "m" (by decide)).2
  refine ⟨hread, hm, ?_⟩
  rw [← (names_denote_themselves.1 "m ").2]
  decide

end Registry

end QuantityCalculus
