import Mathlib
import QuantityCalculus.Proofs.Outcome
import QuantityCalculus.UnitExpr.Scan

/-!
# Scanning and spelling

Tokens are spelled one after the other. Scanning reads back what was spelled, provided
that no name without an exponent stands directly before another name, and it never
yields anything else. Each step of the scan takes a run of characters, so every proof
asks where such a run stops.
-/
namespace QuantityCalculus

namespace UnitExpr

/-- The text does not go on with a character of the class. -/
def StopsAt (p : Char → Bool) (rest : List Char) : Prop := ∀ c ∈ rest.head?, p c = false

theorem takeWhile_eq_nil_of_stopsAt {p : Char → Bool} {rest : List Char} (h : StopsAt p rest) :
    rest.takeWhile p = [] := by
  cases rest with
  | nil => rfl
  | cons c rest => simp [h c rfl]

theorem takeWhile_run {p : Char → Bool} {run rest : List Char} (hrun : ∀ c ∈ run, p c = true)
    (h : StopsAt p rest) : (run ++ rest).takeWhile p = run := by
  rw [List.takeWhile_append_of_pos hrun, takeWhile_eq_nil_of_stopsAt h, List.append_nil]

theorem dropWhile_run {p : Char → Bool} {run rest : List Char} (hrun : ∀ c ∈ run, p c = true)
    (h : StopsAt p rest) : (run ++ rest).dropWhile p = rest := by
  rw [List.dropWhile_append_of_pos hrun]
  cases rest with
  | nil => rfl
  | cons c rest => simp [h c rfl]

theorem stopsAt_dropWhile (p : Char → Bool) (cs : List Char) : StopsAt p (cs.dropWhile p) := by
  intro c hc
  have h := List.head?_dropWhile_not p cs
  rw [Option.mem_def.mp hc] at h
  simpa using h

theorem isNameChar_of_isNameStart {c : Char} (h : isNameStart c = true) : isNameChar c = true := by
  simp only [isNameStart, isNameChar, Char.isAlphanum, Bool.or_eq_true] at h ⊢
  rcases h with h | h
  · exact .inl (.inl h)
  · exact .inr h

theorem isDigit_eq_false_of_isNameStart {c : Char} (h : isNameStart c = true) :
    c.isDigit = false := by
  simp only [isNameStart, Char.isAlpha, Char.isUpper, Char.isLower, Bool.or_eq_true,
    Bool.and_eq_true, decide_eq_true_eq, beq_iff_eq] at h
  simp only [Char.isDigit, Bool.and_eq_false_iff, decide_eq_false_iff_not, ge_iff_le]
  rcases h with (⟨h, -⟩ | ⟨h, -⟩) | rfl
  · right
    grind
  · right
    grind
  · decide

theorem isName_iff {name : List Char} :
    isName name = true ↔ ∃ c rest, name = c :: rest ∧ isNameStart c = true ∧
      ∀ d ∈ rest, isNameChar d = true := by
  cases name with
  | nil => simp [isName]
  | cons c rest =>
    simp only [isName, Bool.and_eq_true, List.all_eq_true]
    constructor
    · rintro ⟨hc, hrest⟩
      exact ⟨c, rest, rfl, hc, hrest⟩
    · rintro ⟨c, rest, heq, hc, hrest⟩
      cases heq
      exact ⟨hc, hrest⟩

theorem isNameChar_of_isName {name : List Char} (h : isName name = true) :
    ∀ c ∈ name, isNameChar c = true := by
  obtain ⟨c, rest, rfl, hc, hrest⟩ := isName_iff.mp h
  intro d hd
  rcases List.mem_cons.mp hd with rfl | hd
  · exact isNameChar_of_isNameStart hc
  · exact hrest d hd

theorem isName_append {name more : List Char} (h : isName name = true)
    (hmore : ∀ c ∈ more, isNameChar c = true) : isName (name ++ more) = true := by
  obtain ⟨c, rest, rfl, hc, hrest⟩ := isName_iff.mp h
  refine isName_iff.mpr ⟨c, rest ++ more, rfl, hc, ?_⟩
  intro d hd
  rcases List.mem_append.mp hd with hd | hd
  · exact hrest d hd
  · exact hmore d hd

/-- A minus sign or none, and then digits, however many of them. -/
def Literal.Written (l : Literal) : Prop :=
  l.digits ≠ [] ∧ ∀ c ∈ l.digits, c.isDigit = true

theorem isDigit_of_valid {l : Literal} (h : l.Valid) : ∀ c ∈ l.digits, c.isDigit = true :=
  List.all_eq_true.mp h.2.1

theorem Literal.Valid.written {l : Literal} (h : l.Valid) : l.Written := ⟨h.1, isDigit_of_valid h⟩

theorem signOf_chars {l : Literal} (h : l.Written) (rest : List Char) :
    signOf (l.chars ++ rest) = (l.negative, l.digits ++ rest) := by
  obtain ⟨negative, digits⟩ := l
  cases negative with
  | true => rfl
  | false =>
    cases digits with
    | nil => exact absurd rfl h.1
    | cons d ds =>
      have hd : d ≠ '-' := by
        rintro rfl
        exact absurd (h.2 '-' List.mem_cons_self) (by decide)
      unfold signOf
      split
      · rename_i heq
        cases heq
        exact absurd rfl hd
      · rfl

/-- A run of digits is scanned to its end, and its length decides. -/
theorem scanLiteral_written {l : Literal} (h : l.Written) {rest : List Char}
    (hrest : StopsAt Char.isDigit rest) :
    scanLiteral (l.chars ++ rest) =
      if Text.digitLimit < l.digits.length then .error .exponentSize else .ok (l, rest) := by
  unfold scanLiteral
  rw [signOf_chars h]
  dsimp only
  rw [takeWhile_run h.2 hrest, dropWhile_run h.2 hrest, if_neg h.1]

theorem scanLiteral_chars {l : Literal} (h : l.Valid) {rest : List Char}
    (hrest : StopsAt Char.isDigit rest) : scanLiteral (l.chars ++ rest) = .ok (l, rest) := by
  rw [scanLiteral_written h.written hrest, if_neg (Nat.not_lt.mpr h.2.2)]

theorem chars_of_signOf {cs digits : List Char} {negative : Bool}
    (h : signOf cs = (negative, digits)) : cs = if negative then '-' :: digits else digits := by
  unfold signOf at h
  split at h <;> cases h <;> rfl

theorem of_scanLiteral {cs rest : List Char} {l : Literal} (h : scanLiteral cs = .ok (l, rest)) :
    l.Valid ∧ cs = l.chars ++ rest ∧ StopsAt Char.isDigit rest := by
  unfold scanLiteral at h
  rcases hsign : signOf cs with ⟨negative, unsigned⟩
  rw [hsign] at h
  dsimp only at h
  split at h
  · cases h
  · rename_i hne
    split at h
    · cases h
    · rename_i hlen
      cases h
      refine ⟨⟨hne, List.all_takeWhile, Nat.not_lt.mp hlen⟩, ?_, stopsAt_dropWhile _ _⟩
      rw [chars_of_signOf hsign]
      cases negative <;> simp [Literal.chars]

def exponentChars : Option Literal → List Char
  | none => []
  | some l => '^' :: l.chars

theorem chars_factor (name : List Char) (exponent : Option Literal) :
    (Token.factor name exponent).chars = name ++ exponentChars exponent := by
  cases exponent with
  | none => exact (List.append_nil name).symm
  | some l => rfl

theorem scanExponent_none {cs : List Char} (h : StopsAt (· == '^') cs) :
    scanExponent cs = .ok (none, cs) := by
  unfold scanExponent
  split
  · exact absurd (h '^' rfl) (by decide)
  · rfl

theorem scanExponent_some {l : Literal} (h : l.Valid) {rest : List Char}
    (hrest : StopsAt Char.isDigit rest) :
    scanExponent (exponentChars (some l) ++ rest) = .ok (some l, rest) := by
  rw [exponentChars, List.cons_append, scanExponent, scanLiteral_chars h hrest]

theorem of_scanExponent {cs rest : List Char} {exponent : Option Literal}
    (h : scanExponent cs = .ok (exponent, rest)) :
    (∀ l ∈ exponent, l.Valid) ∧ cs = exponentChars exponent ++ rest ∧
      (exponent = none → StopsAt (· == '^') rest) := by
  unfold scanExponent at h
  split at h
  · split at h
    · cases h
    · rename_i hliteral
      cases h
      obtain ⟨hvalid, hchars, -⟩ := of_scanLiteral hliteral
      refine ⟨by simpa using hvalid, by rw [hchars]; rfl, by simp⟩
  · rename_i hcaret
    cases h
    refine ⟨by simp, rfl, fun _ c hc => ?_⟩
    cases cs with
    | nil => cases hc
    | cons d cs =>
      cases hc
      exact beq_eq_false_iff_ne.mpr fun heq => hcaret cs (heq ▸ rfl)

theorem scan_nil : scan [] = .ok [] := by rw [scan]

theorem scan_multiply (cs : List Char) :
    scan ('*' :: cs) = (scan cs).map (Token.multiply :: ·) := by
  rw [scan, if_pos rfl]

theorem scan_divide (cs : List Char) : scan ('/' :: cs) = (scan cs).map (Token.divide :: ·) := by
  rw [scan, if_neg (by decide), if_pos rfl]

theorem scan_name {c : Char} (hc : isNameStart c = true) {cs after : List Char}
    {exponent : Option Literal}
    (h : scanExponent (cs.dropWhile isNameChar) = .ok (exponent, after)) :
    scan (c :: cs) =
      (scan after).map (Token.factor (c :: cs.takeWhile isNameChar) exponent :: ·) := by
  have hmultiply : c ≠ '*' := by
    rintro rfl
    exact absurd hc (by decide)
  have hdivide : c ≠ '/' := by
    rintro rfl
    exact absurd hc (by decide)
  rw [scan, if_neg hmultiply, if_neg hdivide, if_pos hc]
  split
  · rename_i h'
    rw [h] at h'
    cases h'
  · rename_i h'
    rw [h] at h'
    cases h'
    rfl

/-- The tokens are valid and make up the text. -/
structure Spells (tokens : List Token) (cs : List Char) : Prop where
  valid : ∀ t ∈ tokens, t.Valid
  chars : tokens.flatMap Token.chars = cs

/-- A name without an exponent may not stand directly before another name. -/
def MayPrecede : Token → Token → Prop
  | .factor _ none, .factor _ _ => False
  | _, _ => True

theorem of_not_mayPrecede {t u : Token} (h : ¬MayPrecede t u) :
    ∃ name name' exponent, t = .factor name none ∧ u = .factor name' exponent := by
  cases t with
  | multiply => exact absurd trivial h
  | divide => exact absurd trivial h
  | factor name exponent =>
    cases exponent with
    | some l => exact absurd trivial h
    | none =>
      cases u with
      | multiply => exact absurd trivial h
      | divide => exact absurd trivial h
      | factor name' exponent' => exact ⟨name, name', exponent', rfl, rfl⟩

def Separated (tokens : List Token) : Prop := tokens.IsChain MayPrecede

theorem Spells.tail {t : Token} {tokens : List Token} {cs : List Char}
    (h : Spells (t :: tokens) cs) : Spells tokens (tokens.flatMap Token.chars) :=
  ⟨fun u hu => h.valid u (List.mem_cons_of_mem _ hu), rfl⟩

theorem valid_factor {name : List Char} {exponent : Option Literal}
    (h : (Token.factor name exponent).Valid) :
    isName name = true ∧ ∀ l ∈ exponent, l.Valid := by
  cases exponent with
  | none => exact ⟨h, by simp⟩
  | some l => exact ⟨h.1, by simpa using h.2⟩

theorem factor_valid {name : List Char} {exponent : Option Literal} (h : isName name = true)
    (hexponent : ∀ l ∈ exponent, l.Valid) : (Token.factor name exponent).Valid := by
  cases exponent with
  | none => exact h
  | some l => exact ⟨h, hexponent l rfl⟩

theorem forall_mem_factor {p : Char → Prop} (hname : ∀ c, isNameChar c = true → p c)
    (hcaret : p '^') (hminus : p '-') {name : List Char} {exponent : Option Literal}
    (h : (Token.factor name exponent).Valid) : ∀ c ∈ (Token.factor name exponent).chars, p c := by
  obtain ⟨hvalid, hexponent⟩ := valid_factor h
  intro c hc
  rw [chars_factor] at hc
  rcases List.mem_append.mp hc with hc | hc
  · exact hname c (isNameChar_of_isName hvalid c hc)
  · cases exponent with
    | none => cases hc
    | some l =>
      have hdigits : ∀ d ∈ l.digits, p d := fun d hd =>
        hname d (by simp [isNameChar, Char.isAlphanum, isDigit_of_valid (hexponent l rfl) d hd])
      rcases List.mem_cons.mp hc with rfl | hc
      · exact hcaret
      · unfold Literal.chars at hc
        split at hc
        · rcases List.mem_cons.mp hc with rfl | hc
          · exact hminus
          · exact hdigits c hc
        · exact hdigits c hc

theorem head_of_spells {tokens : List Token} {cs : List Char} (h : Spells tokens cs) {c : Char}
    (hc : c ∈ cs.head?) : c = '*' ∨ c = '/' ∨ isNameStart c = true := by
  cases tokens with
  | nil =>
    rw [← h.chars] at hc
    cases hc
  | cons t rest =>
    rw [← h.chars, List.flatMap_cons] at hc
    cases t with
    | multiply => exact .inl (Option.some.inj hc).symm
    | divide => exact .inr (.inl (Option.some.inj hc).symm)
    | factor name exponent =>
      obtain ⟨hname, -⟩ := valid_factor (h.valid _ List.mem_cons_self)
      obtain ⟨d, more, rfl, hd, -⟩ := isName_iff.mp hname
      rw [chars_factor] at hc
      cases hc
      exact .inr (.inr hd)

theorem stopsAt_of_spells {p : Char → Bool} (hmultiply : p '*' = false) (hdivide : p '/' = false)
    (hname : ∀ c, isNameStart c = true → p c = false) {tokens : List Token} {cs : List Char}
    (h : Spells tokens cs) : StopsAt p cs := by
  intro c hc
  rcases head_of_spells h hc with rfl | rfl | hstart
  · exact hmultiply
  · exact hdivide
  · exact hname c hstart

theorem stopsAt_digit_of_spells {tokens : List Token} {cs : List Char} (h : Spells tokens cs) :
    StopsAt Char.isDigit cs :=
  stopsAt_of_spells (by decide) (by decide) (fun _ => isDigit_eq_false_of_isNameStart) h

theorem stopsAt_caret_of_spells {tokens : List Token} {cs : List Char} (h : Spells tokens cs) :
    StopsAt (· == '^') cs := by
  refine stopsAt_of_spells (by decide) (by decide) (fun c hc => ?_) h
  apply beq_eq_false_iff_ne.mpr
  rintro rfl
  exact absurd hc (by decide)

theorem stopsAt_name_of_separated {name : List Char} {tokens : List Token} {cs : List Char}
    (h : Spells tokens cs) (hsep : Separated (.factor name none :: tokens)) :
    StopsAt isNameChar cs := by
  cases tokens with
  | nil =>
    rw [← h.chars]
    intro c hc
    cases hc
  | cons t rest =>
    rw [← h.chars]
    intro c hc
    cases t with
    | multiply =>
      cases hc
      decide
    | divide =>
      cases hc
      decide
    | factor name' exponent => exact absurd (List.isChain_cons_cons.mp hsep).1 id

theorem stopsAt_exponent {name : List Char} {exponent : Option Literal} {tokens : List Token}
    {cs : List Char} (h : Spells tokens cs) (hsep : Separated (.factor name exponent :: tokens)) :
    StopsAt isNameChar (exponentChars exponent ++ cs) := by
  cases exponent with
  | none => exact stopsAt_name_of_separated h hsep
  | some l =>
    intro c hc
    cases hc
    decide

/-- Scanning reads back tokens that are kept apart. -/
theorem scan_of_spells {tokens : List Token} {cs : List Char} (h : Spells tokens cs)
    (hsep : Separated tokens) : scan cs = .ok tokens := by
  induction tokens generalizing cs with
  | nil =>
    rw [← h.chars]
    exact scan_nil
  | cons t rest ih =>
    have hrest := ih h.tail hsep.tail
    rw [← h.chars, List.flatMap_cons]
    cases t with
    | multiply =>
      change scan ('*' :: rest.flatMap Token.chars) = _
      rw [scan_multiply, hrest]
      rfl
    | divide =>
      change scan ('/' :: rest.flatMap Token.chars) = _
      rw [scan_divide, hrest]
      rfl
    | factor name exponent =>
      obtain ⟨hname, hexponent⟩ := valid_factor (h.valid _ List.mem_cons_self)
      obtain ⟨c, more, rfl, hc, hmore⟩ := isName_iff.mp hname
      have hafter : scanExponent (exponentChars exponent ++ rest.flatMap Token.chars) =
          .ok (exponent, rest.flatMap Token.chars) := by
        cases exponent with
        | none => exact scanExponent_none (stopsAt_caret_of_spells h.tail)
        | some l => exact scanExponent_some (hexponent l rfl) (stopsAt_digit_of_spells h.tail)
      -- what comes behind the name cannot make it longer
      have hstop := stopsAt_exponent h.tail hsep
      rw [chars_factor, List.append_assoc, List.cons_append]
      rw [scan_name hc (by rw [dropWhile_run hmore hstop]; exact hafter), hrest,
        takeWhile_run hmore hstop]
      rfl

theorem Spells.cons {t : Token} {tokens : List Token} {cs : List Char} (ht : t.Valid)
    (h : Spells tokens cs) : Spells (t :: tokens) (t.chars ++ cs) := by
  refine ⟨fun u hu => ?_, by rw [List.flatMap_cons, h.chars]⟩
  rcases List.mem_cons.mp hu with rfl | hu
  · exact ht
  · exact h.valid u hu

theorem separated_cons {t : Token} {tokens : List Token}
    (h : ∀ u ∈ tokens.head?, MayPrecede t u) (hsep : Separated tokens) :
    Separated (t :: tokens) :=
  List.isChain_cons.mpr ⟨h, hsep⟩

/-- A name is kept apart if it has an exponent or if no name character follows it. -/
theorem mayPrecede_of_stopsAt {name : List Char} {exponent : Option Literal}
    {tokens : List Token} {cs : List Char} (h : Spells tokens cs)
    (hstop : exponent = none → StopsAt isNameChar cs) :
    ∀ u ∈ tokens.head?, MayPrecede (.factor name exponent) u := by
  intro u hu
  obtain ⟨more, rfl⟩ : ∃ more, tokens = u :: more := List.head?_eq_some_iff.mp hu
  by_contra hmeet
  obtain ⟨_, name', exponent', heq, rfl⟩ := of_not_mayPrecede hmeet
  cases heq
  obtain ⟨hname, -⟩ := valid_factor (h.valid _ List.mem_cons_self)
  obtain ⟨c, rest, rfl, hc, -⟩ := isName_iff.mp hname
  have hhead : c ∈ cs.head? := by
    rw [← h.chars, List.flatMap_cons, chars_factor]
    rfl
  have hnone := hstop rfl c hhead
  rw [isNameChar_of_isNameStart hc] at hnone
  cases hnone

theorem isName_takeWhile {c : Char} (hc : isNameStart c = true) (cs : List Char) :
    isName (c :: cs.takeWhile isNameChar) = true :=
  isName_iff.mpr ⟨c, _, rfl, hc, fun _ hd => List.mem_takeWhile_imp hd⟩

theorem factor_of_scanExponent {c : Char} (hc : isNameStart c = true) {cs after : List Char}
    {exponent : Option Literal}
    (h : scanExponent (cs.dropWhile isNameChar) = .ok (exponent, after)) :
    (Token.factor (c :: cs.takeWhile isNameChar) exponent).Valid ∧
      c :: cs = (Token.factor (c :: cs.takeWhile isNameChar) exponent).chars ++ after ∧
      (exponent = none → StopsAt isNameChar after) := by
  obtain ⟨hvalid, hchars, -⟩ := of_scanExponent h
  refine ⟨factor_valid (isName_takeWhile hc cs) hvalid, ?_, ?_⟩
  · rw [chars_factor, List.append_assoc, ← hchars, List.cons_append,
      List.takeWhile_append_dropWhile]
  · rintro rfl
    have hafter : cs.dropWhile isNameChar = after := hchars
    exact hafter ▸ stopsAt_dropWhile isNameChar cs

/-- What is scanned are tokens that are kept apart and make up the text. -/
theorem of_scan {cs : List Char} {tokens : List Token} (h : scan cs = .ok tokens) :
    Spells tokens cs ∧ Separated tokens := by
  fun_induction scan cs generalizing tokens with
  | case1 =>
    cases h
    exact ⟨⟨by simp, rfl⟩, .nil⟩
  | case2 rest ih =>
    obtain ⟨more, hmore, rfl⟩ := map_eq_ok_iff.mp h
    obtain ⟨hspells, hsep⟩ := ih hmore
    exact ⟨.cons (t := .multiply) trivial hspells, separated_cons (fun _ _ => trivial) hsep⟩
  | case3 rest _ ih =>
    obtain ⟨more, hmore, rfl⟩ := map_eq_ok_iff.mp h
    obtain ⟨hspells, hsep⟩ := ih hmore
    exact ⟨.cons (t := .divide) trivial hspells, separated_cons (fun _ _ => trivial) hsep⟩
  | case4 c rest => cases h
  | case5 c rest _ _ hc exponent after hexponent _ ih =>
    obtain ⟨more, hmore, rfl⟩ := map_eq_ok_iff.mp h
    obtain ⟨hspells, hsep⟩ := ih hmore
    obtain ⟨hvalid, htext, hstop⟩ := factor_of_scanExponent hc hexponent
    exact ⟨htext ▸ .cons hvalid hspells,
      separated_cons (mayPrecede_of_stopsAt hspells hstop) hsep⟩
  | case6 c rest => cases h

theorem scan_eq_ok_iff {cs : List Char} {tokens : List Token} :
    scan cs = .ok tokens ↔ Spells tokens cs ∧ Separated tokens := by
  constructor
  · exact of_scan
  · rintro ⟨hspells, hsep⟩
    exact scan_of_spells hspells hsep

end UnitExpr

end QuantityCalculus
