import QuantityCalculus.Proofs.Dimension.Reordered
import QuantityCalculus.Proofs.Dimension.WholePowers

/-!
# What a map is accepted as

An exponent from outside stands for an integer if it is one, or if it is a double or a ratio whose
value is whole. A map is accepted exactly if all its keys are texts and all its exponents stand for
integers. It then denotes these integers, without the zeros and in the order of the map. A map that
is refused is refused for the first entry that does not pass, and of this entry for the key first.
-/
namespace QuantityCalculus

namespace Value

/-- The integer that an exponent stands for. Truth values and decimals stand for none. -/
inductive IsWhole : Value → Int → Prop where
  | integer (n : Int) : IsWhole (.integer n) n
  | float {x : Float} {n : Int} (h : (Binary.ofFloat x).toRat? = some (n : Rat)) :
    IsWhole (.number (.float x)) n
  | ratio {q : Rat} (h : q.den = 1) : IsWhole (.ratio q) q.num

variable {v : Value} {n : Int}

theorem isWhole_iff : v.IsWhole n ↔ v.toExponent = .ok n := by
  rw [toExponent_eq_ok_iff]
  constructor
  · intro h
    cases h with
    | integer n => exact ⟨_, rfl, rfl⟩
    | float h => exact ⟨_, rfl, Binary.toInt?_eq_some_iff.mpr h⟩
    | ratio h => exact ⟨_, rfl, if_pos h⟩
  · rintro ⟨a, rfl, h⟩
    cases a with
    | integer i =>
      cases h
      exact .integer n
    | float x => exact .float (Binary.toInt?_eq_some_iff.mp h)
    | ratio q =>
      rw [Number.toExponent?_ratio_eq_some_iff.mp h]
      exact .ratio rfl
    | truth b => cases h
    | decimal d => cases h
    | labelled l form => cases h

theorem IsWhole.equals (h : v.IsWhole n) : v.equals (.integer n) = .ok true := by
  obtain ⟨a, rfl, ha⟩ := toExponent_eq_ok_iff.mp (isWhole_iff.mp h)
  rw [Value.equals, Number.compareEqual_integer_of_whole ha, decide_eq_true rfl]

theorem toExponent_of_not_isWhole (htruth : ∀ b, v ≠ .number (.truth b))
    (hwhole : ∀ n, ¬v.IsWhole n) :
    v.toExponent = v.describe >>= fun shown => .error (.fractionalExponent shown) := by
  unfold toExponent
  split
  · exact absurd rfl (htruth _)
  · split
    · rename_i n hn
      exact absurd (isWhole_iff.mpr (toExponent_eq_ok_iff.mpr ⟨_, rfl, hn⟩)) (hwhole n)
    · rfl
  · rfl

end Value

namespace DimensionMap

structure AcceptedAs (e : Value × Value) (p : String × Int) : Prop where
  symbol : e.1 = .text p.1
  exponent : e.2.IsWhole p.2

/-- Why an entry is refused: for its key, or under a text for its exponent. An exponent that is no
truth value is shown, if that takes no numeral that is too long. -/
inductive Refused : Value × Value → Error → Prop where
  | key {k v : Value} (h : ∀ s, k ≠ .text s) : Refused (k, v) (.symbolNotText k.typeName)
  | truth (s : String) (b : Bool) : Refused (.text s, .number (.truth b)) .booleanExponent
  | shown {s : String} {v : Value} (htruth : ∀ b, v ≠ .number (.truth b))
    (hwhole : ∀ n, ¬v.IsWhole n) (h : v.isPrintable = true) :
    Refused (.text s, v) (.fractionalExponent v.description)
  | unshown {s : String} {v : Value} (hwhole : ∀ n, ¬v.IsWhole n) (h : v.isPrintable = false) :
    Refused (.text s, v) .numeralTooLong

variable {e : Value × Value} {p : String × Int} {err : Error} {m : DimensionMap}
  {entries : List (Value × Value)} {powers : List (String × Int)}

theorem checkEntry_eq_ok_iff : checkEntry e = .ok p ↔ AcceptedAs e p := by
  constructor
  · intro h
    have hsymbol := Unchecked.text_of_checkEntry h
    refine ⟨hsymbol, Value.isWhole_iff.mpr ?_⟩
    unfold checkEntry at h
    rw [hsymbol] at h
    obtain ⟨n, hn, h⟩ := bind_eq_ok_iff.mp h
    rw [hn, ← Except.ok.inj h]
  · rintro ⟨hsymbol, hexponent⟩
    unfold checkEntry
    rw [hsymbol, Value.isWhole_iff.mp hexponent]
    rfl

theorem checkEntry_text_eq_error_iff {s : String} {v : Value} :
    checkEntry (.text s, v) = .error err ↔ v.toExponent = .error err :=
  bind_ok_eq_error_iff

/-- Under a text it is the exponent that is refused. -/
theorem refused_of_toExponent {s : String} {v : Value} (h : v.toExponent = .error err) :
    Refused (.text s, v) err := by
  have hwhole : ∀ n, ¬v.IsWhole n := fun n hn => by
    rw [Value.isWhole_iff.mp hn] at h
    cases h
  by_cases htruth : ∃ b, v = .number (.truth b)
  · obtain ⟨b, rfl⟩ := htruth
    cases h
    exact .truth s b
  · rw [not_exists] at htruth
    rw [Value.toExponent_of_not_isWhole htruth hwhole, Value.describe] at h
    -- the error shows the exponent, unless one of its numerals is too long
    cases hprintable : v.isPrintable with
    | true =>
      rw [hprintable] at h
      cases h
      exact .shown htruth hwhole hprintable
    | false =>
      rw [hprintable] at h
      cases h
      exact .unshown hwhole hprintable

theorem checkEntry_of_refused (h : Refused e err) : checkEntry e = .error err := by
  cases h with
  | @key k v h =>
    cases k with
    | text s => exact absurd rfl (h s)
    | _ => rfl
  | truth s b => rfl
  | shown htruth hwhole h =>
    rw [checkEntry_text_eq_error_iff, Value.toExponent_of_not_isWhole htruth hwhole,
      Value.describe, h]
    rfl
  | @unshown s v hwhole h =>
    have htruth : ∀ b, v ≠ .number (.truth b) := by
      rintro b rfl
      cases h
    rw [checkEntry_text_eq_error_iff, Value.toExponent_of_not_isWhole htruth hwhole,
      Value.describe, h]
    rfl

theorem checkEntry_eq_error_iff : checkEntry e = .error err ↔ Refused e err := by
  refine ⟨fun h => ?_, checkEntry_of_refused⟩
  obtain ⟨k, v⟩ := e
  cases k with
  | text s => exact refused_of_toExponent (checkEntry_text_eq_error_iff.mp h)
  | _ =>
    cases h
    exact .key (by simp)

theorem keys_of_acceptedAs (h : List.Forall₂ AcceptedAs entries powers) :
    entries.map Prod.fst = powers.map fun p => .text p.1 := by
  rw [← List.forall₂_eq_eq_eq, List.forall₂_map_left_iff, List.forall₂_map_right_iff]
  exact h.imp fun _ _ hep => hep.symbol

theorem nodup_of_acceptedAs (h : List.Forall₂ AcceptedAs entries powers)
    (hkeys : (Value.map entries).HasUniqueKeys) : (powers.map Prod.fst).Nodup := by
  have hdiffer : (entries.map Prod.fst).Pairwise fun k l => k.isSameKey l = false :=
    List.pairwise_map.mpr hkeys
  rw [keys_of_acceptedAs h] at hdiffer
  refine List.pairwise_map.mpr ((List.pairwise_map.mp hdiffer).imp fun hpq heq => ?_)
  rw [heq, Value.isSameKey_text, beq_self_eq_true] at hpq
  cases hpq

theorem normalize_eq_ok_iff (hkeys : (Value.map entries).HasUniqueKeys) :
    normalize (.map entries) = .ok m ↔ ∃ powers, List.Forall₂ AcceptedAs entries powers ∧
      m.entries = powers.filter fun p => p.2 ≠ 0 := by
  rw [normalize_map, map_eq_ok_iff]
  simp only [mapM_eq_ok_iff, checkEntry_eq_ok_iff]
  refine exists_congr fun powers => and_congr_right fun h => ?_
  rw [← entries_ofList (nodup_of_acceptedAs h hkeys)]
  exact ⟨fun hm => hm ▸ rfl, fun hm => (ext hm).symm⟩

theorem exists_normalize_iff : (∃ m, normalize (.map entries) = .ok m) ↔
    ∀ e ∈ entries, ∃ p, AcceptedAs e p := by
  simp only [← checkEntry_eq_ok_iff]
  exact accepted_map_iff

theorem normalize_eq_error_iff : normalize (.map entries) = .error err ↔
    ∃ passed e rest, entries = passed ++ e :: rest ∧ (∀ f ∈ passed, ∃ p, AcceptedAs f p) ∧
      Refused e err := by
  rw [normalize_map, map_eq_error_iff, mapM_eq_error_iff]
  simp only [FirstRefusal, checkEntry_eq_ok_iff, checkEntry_eq_error_iff]

/-- A map is normalized exactly if its keys are texts and its exponents stand for integers. Its
normal form has these integers, equal to what was given, for the symbols for which they are not
zero, in the order of the map; it is what writing entry by entry leaves, and its own normal form. A
map that is refused is refused for its first entry that does not pass. -/
theorem normalize_canonicalizes (hkeys : (Value.map entries).HasUniqueKeys) :
    ((∃ m, normalize (.map entries) = .ok m) ↔
      ∀ e ∈ entries, (∃ s, e.1 = .text s) ∧ ∃ n, e.2.IsWhole n) ∧
    (∀ m, normalize (.map entries) = .ok m →
      (∃ powers, List.Forall₂ (fun e p => e.1 = .text p.1 ∧ e.2.IsWhole p.2 ∧
          e.2.equals (.integer p.2) = .ok true) entries powers ∧
        m.entries = powers.filter fun p => p.2 ≠ 0) ∧
      Unchecked.normalized (.map entries) = .ok m.toValue ∧ normalize m.toValue = .ok m) ∧
    ∀ err, normalize (.map entries) = .error err ↔
      ∃ passed e rest, entries = passed ++ e :: rest ∧
        (∀ f ∈ passed, (∃ s, f.1 = .text s) ∧ ∃ n, f.2.IsWhole n) ∧ Refused e err := by
  have haccepted (e : Value × Value) :
      (∃ p, AcceptedAs e p) ↔ (∃ s, e.1 = .text s) ∧ ∃ n, e.2.IsWhole n := by
    constructor
    · rintro ⟨p, hsymbol, hexponent⟩
      exact ⟨⟨p.1, hsymbol⟩, p.2, hexponent⟩
    · rintro ⟨⟨s, hsymbol⟩, n, hexponent⟩
      exact ⟨(s, n), hsymbol, hexponent⟩
  refine ⟨?_, fun m hm => ⟨?_, ?_, Unchecked.normalize_toValue m⟩, fun err => ?_⟩
  · rw [exists_normalize_iff]
    exact forall₂_congr fun e _ => haccepted e
  · obtain ⟨powers, hpowers, hentries⟩ := (normalize_eq_ok_iff hkeys).mp hm
    refine ⟨powers, hpowers.imp fun e p hep => ?_, hentries⟩
    exact ⟨hep.symbol, hep.exponent, hep.exponent.equals⟩
  · rw [Unchecked.normalized_eq hkeys, hm]
    rfl
  · rw [normalize_eq_error_iff]
    simp only [haccepted]

theorem mixed_exponents_normalized :
    let entries := [(.text "s", .ratio (-3)), (.text "K", .number (.float 0.0)),
      (.text "m", .number (.float 2.0)), (.text "kg", .integer (10 ^ 30))]
    (Value.map entries).HasUniqueKeys ∧
      ∃ m, normalize (.map entries) = .ok m ∧
        m.entries = [("s", -3), ("m", 2), ("kg", 10 ^ 30)] ∧
        Unchecked.normalized (.map entries) = .ok m.toValue ∧ normalize m.toValue = .ok m := by
  intro entries
  have hkeys : (Value.map entries).HasUniqueKeys := by
    simp [entries, Value.HasUniqueKeys]
  have hzero : (Value.number (.float 0.0)).IsWhole 0 := .float (by decide +kernel)
  have htwo : (Value.number (.float 2.0)).IsWhole 2 := .float (by decide +kernel)
  have haccepted : List.Forall₂ AcceptedAs entries
      [("s", -3), ("K", 0), ("m", 2), ("kg", 10 ^ 30)] :=
    .cons ⟨rfl, .ratio rfl⟩ (.cons ⟨rfl, hzero⟩ (.cons ⟨rfl, htwo⟩
      (.cons ⟨rfl, .integer _⟩ .nil)))
  have hm : normalize (.map entries) = .ok (ofList [("s", -3), ("m", 2), ("kg", 10 ^ 30)]) :=
    (normalize_eq_ok_iff hkeys).mpr ⟨_, haccepted, by decide⟩
  obtain ⟨-, hwritten, hfixed⟩ := (normalize_canonicalizes hkeys).2.1 _ hm
  exact ⟨hkeys, _, hm, by decide, hwritten, hfixed⟩

end DimensionMap

end QuantityCalculus
