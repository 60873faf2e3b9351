import QuantityCalculus.Proofs.UnitExpr.Product

/-!
# Where reading stops

A text that is not read has its fault at one place. The scan has cut what stands before this
place into tokens and would cut it into the same tokens if nothing followed, so this part is
read by itself; where an exponent is at fault, the part before the caret is read and ends in a
bare name. What follows the place tells the kinds of faults apart. The error names the fault, the
place in the squeezed text and the text as it was given.
-/
namespace QuantityCalculus

namespace UnitExpr

variable {cs passed rest written more : List Char} {tokens : List Token} {t : Token}
  {name : List Char} {stop : Stop} {fault : UnitFault} {i : Nat}

/-- The text begins with an exponent, however long it is. -/
def BeginsWithLiteral (cs : List Char) : Prop := ∃ l : Literal, l.Written ∧ l.chars <+: cs

/-- The text begins with a minus sign or none and then more digits than can be read. -/
def BeginsTooLong (cs : List Char) : Prop :=
  ∃ (l : Literal) (rest : List Char), cs = l.chars ++ rest ∧ l.Written ∧
    StopsAt Char.isDigit rest ∧ Text.digitLimit < l.digits.length

theorem BeginsTooLong.beginsWithLiteral (h : BeginsTooLong cs) : BeginsWithLiteral cs := by
  obtain ⟨l, rest, rfl, hl, -, -⟩ := h
  exact ⟨l, hl, List.prefix_append _ _⟩

theorem literal_or_not (cs : List Char) :
    (∃ (l : Literal) (rest : List Char), cs = l.chars ++ rest ∧ l.Written ∧
      StopsAt Char.isDigit rest) ∨
    ¬BeginsWithLiteral cs ∧ scanLiteral cs = .error .exponent := by
  rcases hsign : signOf cs with ⟨negative, unsigned⟩
  by_cases hnone : unsigned.takeWhile Char.isDigit = []
  · right
    constructor
    · rintro ⟨l, hl, more, rfl⟩
      rw [signOf_chars hl] at hsign
      cases hsign
      rw [List.takeWhile_append_of_pos hl.2] at hnone
      exact hl.1 (List.append_eq_nil_iff.mp hnone).1
    · unfold scanLiteral
      rw [hsign]
      exact if_pos hnone
  · refine .inl ⟨⟨negative, unsigned.takeWhile Char.isDigit⟩, unsigned.dropWhile Char.isDigit, ?_,
      ⟨hnone, fun c hc => List.mem_takeWhile_imp hc⟩, stopsAt_dropWhile _ _⟩
    rw [chars_of_signOf hsign]
    cases negative <;> simp [Literal.chars]

/-- An exponent is missing, or it is too long; nothing else stops the scan of one. -/
theorem of_scanLiteral_error (h : scanLiteral cs = .error fault) :
    fault = .exponent ∧ ¬BeginsWithLiteral cs ∨ fault = .exponentSize ∧ BeginsTooLong cs := by
  rcases literal_or_not cs with ⟨l, rest, rfl, hl, hrest⟩ | ⟨hno, herror⟩
  · rw [scanLiteral_written hl hrest] at h
    split at h
    · rename_i hlong
      cases h
      exact .inr ⟨rfl, l, rest, rfl, hl, hrest, hlong⟩
    · cases h
  · rw [herror] at h
    cases h
    exact .inl ⟨rfl, hno⟩

/-- The scan of a text stops: at a character that begins no token, or behind the caret of a bare
name where no exponent follows, or one that is too long. -/
inductive Stops : List Char → Stop → Prop where
  | symbol {tokens : List Token} {passed rest : List Char} {c : Char}
      (cut : scan passed = .ok tokens) (foreign : isNameStart c = false ∧ c ≠ '*' ∧ c ≠ '/') :
      Stops (passed ++ c :: rest) ⟨.symbol c, c :: rest⟩
  | exponent {tokens : List Token} {name passed written : List Char}
      (cut : scan passed = .ok (tokens ++ [.factor name none]))
      (missing : ¬BeginsWithLiteral written) :
      Stops (passed ++ '^' :: written) ⟨.exponent, written⟩
  | exponentSize {tokens : List Token} {name passed written : List Char}
      (cut : scan passed = .ok (tokens ++ [.factor name none]))
      (long : BeginsTooLong written) :
      Stops (passed ++ '^' :: written) ⟨.exponentSize, written⟩

theorem StopsAt.of_append {p : Char → Bool} (h : StopsAt p (cs ++ more)) : StopsAt p cs := by
  intro c hc
  refine h c ?_
  rw [List.head?_append, Option.mem_def.mp hc]
  rfl

theorem scan_token (ht : t.Valid) (hstop : ∀ name, t = .factor name none → StopsAt isNameChar cs)
    (h : scan cs = .ok tokens) : scan (t.chars ++ cs) = .ok (t :: tokens) := by
  obtain ⟨hspells, hsep⟩ := of_scan h
  refine scan_of_spells (.cons ht hspells) (separated_cons ?_ hsep)
  cases t with
  | multiply | divide => exact fun _ _ => trivial
  | factor name exponent =>
    exact mayPrecede_of_stopsAt hspells fun hnone => hstop name (hnone ▸ rfl)

/-- A token in front moves the place where the scan stops and nothing else. -/
theorem Stops.cons (ht : t.Valid) (hstop : ∀ name, t = .factor name none → StopsAt isNameChar cs)
    (h : Stops cs stop) : Stops (t.chars ++ cs) stop := by
  cases h with
  | symbol cut foreign =>
    rw [← List.append_assoc]
    exact .symbol (scan_token ht (fun name hname => (hstop name hname).of_append) cut) foreign
  | @exponent before name passed written cut missing =>
    have hcut : scan (t.chars ++ passed) = .ok ((t :: before) ++ [.factor name none]) :=
      scan_token ht (fun name hname => (hstop name hname).of_append) cut
    rw [← List.append_assoc]
    exact .exponent hcut missing
  | @exponentSize before name passed written cut long =>
    have hcut : scan (t.chars ++ passed) = .ok ((t :: before) ++ [.factor name none]) :=
      scan_token ht (fun name hname => (hstop name hname).of_append) cut
    rw [← List.append_assoc]
    exact .exponentSize hcut long

theorem stops_of_scanExponent (hname : isName name = true)
    (h : scanExponent cs = .error stop) : Stops (name ++ cs) stop := by
  unfold scanExponent at h
  split at h
  · split at h
    · rename_i fault hliteral
      cases h
      have hcut : scan (name ++ []) = .ok ([] ++ [.factor name none]) :=
        scan_token (t := .factor name none) hname (fun _ _ c hc => by cases hc) scan_nil
      rw [List.append_nil] at hcut
      rcases of_scanLiteral_error hliteral with ⟨rfl, hmissing⟩ | ⟨rfl, hlong⟩
      · exact .exponent hcut hmissing
      · exact .exponentSize hcut hlong
    · cases h
  · cases h

theorem stops_of_scan (h : scan cs = .error stop) : Stops cs stop := by
  fun_induction scan cs with
  | case1 => cases h
  | case2 rest ih =>
    exact (ih (map_eq_error_iff.mp h)).cons (t := .multiply) trivial fun _ hname => by cases hname
  | case3 rest _ ih =>
    exact (ih (map_eq_error_iff.mp h)).cons (t := .divide) trivial fun _ hname => by cases hname
  | case4 c rest _ _ hc stop' hexponent =>
    cases h
    have hstops := stops_of_scanExponent (isName_takeWhile hc rest) hexponent
    rwa [List.cons_append, List.takeWhile_append_dropWhile] at hstops
  | case5 c rest _ _ hc exponent after hexponent _ ih =>
    obtain ⟨hvalid, htext, hstop⟩ := factor_of_scanExponent hc hexponent
    rw [htext]
    exact (ih (map_eq_error_iff.mp h)).cons hvalid fun name hname => by
      cases hname
      exact hstop rfl
  | case6 c rest hmultiply hdivide hc =>
    cases h
    change Stops ([] ++ c :: rest) _
    exact .symbol scan_nil ⟨by simpa using hc, hmultiply, hdivide⟩

def IsRead (cs : List Char) : Prop := ∃ m, readValue (.text (String.ofList cs)) = .ok m

def EndsInName (cs : List Char) : Prop :=
  ∃ (tokens : List Token) (name : List Char), LongestMatch (tokens ++ [.factor name none]) cs

/-- The place lies behind a caret, and the caret behind a unit expression that ends in a bare
name. -/
structure BehindCaret (cs : List Char) (i : Nat) : Prop where
  caret : 0 < i ∧ cs[i - 1]? = some '^'
  read : IsRead (cs.take (i - 1))
  name : EndsInName (cs.take (i - 1))

/-- The fault stands at a place of a text without blanks. -/
def FaultAt (cs : List Char) (i : Nat) : UnitFault → Prop
  | .symbol c =>
    cs[i]? = some c ∧ IsRead (cs.take i) ∧ isNameStart c = false ∧ c ≠ '*' ∧ c ≠ '/'
  | .exponent => BehindCaret cs i ∧ ¬BeginsWithLiteral (cs.drop i)
  | .exponentSize => BehindCaret cs i ∧ BeginsTooLong (cs.drop i)

theorem isRead_of_scan (h : scan cs = .ok tokens) : IsRead cs := by
  obtain ⟨hspells, hsep⟩ := of_scan h
  refine ⟨_, readValue_eq_ok_iff.mpr ⟨tokens, ?_, rfl⟩⟩
  rw [String.toList_ofList, hspells.squeeze]
  exact longestMatch_of_separated hspells hsep

theorem behindCaret_of_scan (h : scan passed = .ok (tokens ++ [.factor name none])) :
    BehindCaret (passed ++ '^' :: written) (passed.length + 1) := by
  refine ⟨⟨Nat.succ_pos _, ?_⟩, ?_, ?_⟩
  · simp
  · simpa using isRead_of_scan h
  · simpa using ⟨tokens, name, scan_eq_ok_iff_longestMatch.mp h⟩

theorem Stops.faultAt (h : Stops cs stop) : FaultAt cs (cs.length - stop.rest.length) stop.fault := by
  cases h with
  | @symbol tokens passed rest c cut foreign =>
    have hplace : (passed ++ c :: rest).length - (c :: rest).length = passed.length := by simp
    rw [hplace]
    exact ⟨by simp, by simpa using isRead_of_scan cut, foreign⟩
  | @exponent tokens name passed written cut missing =>
    have hplace : (passed ++ '^' :: written).length - written.length = passed.length + 1 := by
      simp only [List.length_append, List.length_cons]
      omega
    rw [hplace]
    exact ⟨behindCaret_of_scan cut, by simpa using missing⟩
  | @exponentSize tokens name passed written cut long =>
    have hplace : (passed ++ '^' :: written).length - written.length = passed.length + 1 := by
      simp only [List.length_append, List.length_cons]
      omega
    rw [hplace]
    exact ⟨behindCaret_of_scan cut, by simpa using long⟩

theorem getLast?_append_run {p : Char → Bool} {run : List Char} (hne : run ≠ [])
    (hrun : ∀ c ∈ run, p c = true) (cs : List Char) {c : Char} (hc : c ∈ (cs ++ run).getLast?) :
    p c = true := by
  rw [List.getLast?_append_of_ne_nil cs hne] at hc
  exact hrun c (List.mem_of_getLast? hc)

/-- A token ends with an operator, a character of a name or a digit. -/
theorem getLast?_ne_caret (h : t.Valid) : '^' ∉ t.chars.getLast? := by
  intro hcaret
  cases t with
  | multiply | divide => exact absurd hcaret (by decide)
  | factor name exponent =>
    obtain ⟨hname, hexponent⟩ := valid_factor h
    rw [chars_factor] at hcaret
    cases exponent with
    | none =>
      have hmem := List.mem_of_getLast? hcaret
      rw [exponentChars, List.append_nil] at hmem
      exact absurd (isNameChar_of_isName hname _ hmem) (by decide)
    | some l =>
      obtain ⟨hne, hdigits⟩ := (hexponent l rfl).written
      obtain ⟨sign, hsign⟩ : ∃ sign, l.chars = sign ++ l.digits := by
        unfold Literal.chars
        split
        · exact ⟨['-'], rfl⟩
        · exact ⟨[], rfl⟩
      rw [exponentChars, hsign, ← List.cons_append, ← List.append_assoc] at hcaret
      exact absurd (getLast?_append_run hne hdigits _ hcaret) (by decide)

theorem Spells.getLast?_ne_caret (h : Spells tokens cs) : '^' ∉ cs.getLast? := by
  rcases tokens.eq_nil_or_concat with rfl | ⟨before, t, rfl⟩
  · rw [← h.chars]
    exact nofun
  · have ht : t.Valid := h.valid t (by simp)
    have hne : t.chars ≠ [] := List.length_pos_iff.mp (length_pos_of_valid ht)
    rw [← h.chars, List.concat_eq_append, List.flatMap_append, List.flatMap_singleton,
      List.getLast?_append_of_ne_nil _ hne]
    exact UnitExpr.getLast?_ne_caret ht

theorem not_isRead_of_caret : ¬IsRead (passed ++ ['^']) := by
  intro hread
  obtain ⟨tokens, hspells⟩ := (readValue_isOk_iff _).mp hread
  have hcaret : Text.squeeze ['^'] = ['^'] := by decide
  rw [String.toList_ofList, Text.squeeze_append, hcaret] at hspells
  exact hspells.getLast?_ne_caret (by simp)

theorem BehindCaret.not_isRead (h : BehindCaret cs i) : ¬IsRead (cs.take i) := by
  obtain ⟨hpos, hcaret⟩ := h.caret
  obtain ⟨k, rfl⟩ : ∃ k, i = k + 1 := ⟨i - 1, by omega⟩
  rw [List.take_add_one, show cs[k]? = some '^' from hcaret]
  exact not_isRead_of_caret

/-- At most one fault stands at a place. -/
theorem FaultAt.unique {other : UnitFault} (h : FaultAt cs i fault) (h' : FaultAt cs i other) :
    other = fault := by
  cases fault with
  | symbol c =>
    obtain ⟨hc, hread, -⟩ := h
    cases other with
    | symbol d => rw [Option.some.inj (hc.symm.trans h'.1)]
    | exponent | exponentSize => exact absurd hread h'.1.not_isRead
  | exponent =>
    obtain ⟨hbehind, hmissing⟩ := h
    cases other with
    | symbol d => exact absurd h'.2.1 hbehind.not_isRead
    | exponent => rfl
    | exponentSize => exact absurd h'.2.beginsWithLiteral hmissing
  | exponentSize =>
    obtain ⟨hbehind, hlong⟩ := h
    cases other with
    | symbol d => exact absurd h'.2.1 hbehind.not_isRead
    | exponent => exact absurd hlong.beginsWithLiteral h'.2
    | exponentSize => rfl

theorem readValue_eq_error_iff {text : String} {e : Error} :
    readValue (.text text) = .error e ↔
      ∃ stop, scan (Text.squeeze text.toList) = .error stop ∧
        e = .unreadableUnits stop.fault text
          ((Text.squeeze text.toList).length - stop.rest.length) := by
  rw [readValue_text, read]
  cases scan (Text.squeeze text.toList) with
  | ok tokens =>
    constructor
    · intro h
      cases h
    · rintro ⟨stop, hstop, -⟩
      cases hstop
  | error stop =>
    constructor
    · intro h
      exact ⟨stop, rfl, (Except.error.inj h).symm⟩
    · rintro ⟨stop', hstop, rfl⟩
      cases hstop
      rfl

/-- The error of a text that is not read names the fault, its place in the squeezed text and the
text as given. The fault stands at this place, and no other one does. Texts that squeeze to the
same characters have the same fault at the same place. -/
theorem error_points_at_fault (text : String) (e : Error)
    (h : readValue (.text text) = .error e) :
    let cs := Text.squeeze text.toList
    ∃ fault i, e = .unreadableUnits fault text i ∧
      e.message = some (fault.message ++ " at index " ++ toString i ++ " in " ++ Text.quote text) ∧
      i ≤ cs.length ∧ (∀ other, FaultAt cs i other ↔ other = fault) ∧
      ∀ text', Text.squeeze text'.toList = cs →
        readValue (.text text') = .error (.unreadableUnits fault text' i) := by
  intro cs
  obtain ⟨stop, hstop, rfl⟩ := readValue_eq_error_iff.mp h
  have hfault := (stops_of_scan hstop).faultAt
  refine ⟨_, _, rfl, rfl, Nat.sub_le _ _, fun other => ?_, fun text' hsame => ?_⟩
  · constructor
    · exact hfault.unique
    · rintro rfl
      exact hfault
  · exact readValue_eq_error_iff.mpr ⟨stop, hsame ▸ hstop, by rw [hsame]⟩

theorem exponent_missing_behind_metre :
    let text := "kg * m ^ x"
    readValue (.text text) = .error (.unreadableUnits .exponent text 5) ∧
      FaultAt "kg*m^x".toList 5 .exponent ∧
      readValue (.text "kg*m^x") = .error (.unreadableUnits .exponent "kg*m^x" 5) := by
  intro text
  have hread : readValue (.text text) = .error (.unreadableUnits .exponent text 5) := by
    cbv
  have hsqueeze : Text.squeeze text.toList = "kg*m^x".toList := by decide
  obtain ⟨fault, i, he, -, -, hfault, hsame⟩ := error_points_at_fault text _ hread
  cases he
  rw [hsqueeze] at hfault hsame
  exact ⟨hread, (hfault .exponent).mpr rfl, hsame _ (by decide)⟩

end UnitExpr

end QuantityCalculus
