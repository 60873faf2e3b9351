import QuantityCalculus.Proofs.UnitExpr.Scanning

/-!
# Longest matches

A text can be cut into tokens in several ways, since every beginning of a name is a name
and every beginning of an exponent is an exponent. The scan takes the longest token at
every place. It loses no text by that: names that meet in some cut become one name.
-/
namespace QuantityCalculus

namespace UnitExpr

def Longest (t : Token) (cs : List Char) : Prop :=
  ∀ u : Token, u.Valid → u.chars <+: cs → u.chars.length ≤ t.chars.length

/-- The text is cut from left to right, and every token is the longest at its place. -/
inductive LongestMatch : List Token → List Char → Prop where
  | nil : LongestMatch [] []
  | cons {t : Token} {tokens : List Token} {cs : List Char} (valid : t.Valid)
      (longest : Longest t (t.chars ++ cs)) (rest : LongestMatch tokens cs) :
      LongestMatch (t :: tokens) (t.chars ++ cs)

theorem LongestMatch.spells {tokens : List Token} {cs : List Char} (h : LongestMatch tokens cs) :
    Spells tokens cs := by
  induction h with
  | nil => exact ⟨by simp, rfl⟩
  | cons valid _ _ ih => exact .cons valid ih

theorem length_le_of_prefix {p : Char → Bool} {run cs rest : List Char} {more : List Char}
    (hrun : ∀ c ∈ run, p c = true) (hmore : ∀ c ∈ more, p c = true) (hrest : StopsAt p rest)
    (h : run ++ cs = more ++ rest) : run.length ≤ more.length := by
  have hlen := congrArg (fun text => (text.takeWhile p).length) h
  rw [List.takeWhile_append_of_pos hrun, takeWhile_run hmore hrest, List.length_append] at hlen
  omega

theorem Literal.length_le {l k : Literal} (hl : l.Valid) (hk : k.Valid) {cs rest : List Char}
    (hrest : StopsAt Char.isDigit rest) (h : k.chars ++ cs = l.chars ++ rest) :
    k.chars.length ≤ l.chars.length := by
  have hsign : signOf (k.chars ++ cs) = signOf (l.chars ++ rest) := by rw [h]
  rw [signOf_chars hk.written, signOf_chars hl.written, Prod.mk.injEq] at hsign
  obtain ⟨hnegative, hdigits⟩ := hsign
  have hlen := length_le_of_prefix (isDigit_of_valid hk) (isDigit_of_valid hl) hrest hdigits
  unfold chars
  rw [hnegative]
  split
  · exact Nat.succ_le_succ hlen
  · exact hlen

theorem length_pos_of_valid {t : Token} (h : t.Valid) : 0 < t.chars.length := by
  cases t with
  | multiply => exact Nat.one_pos
  | divide => exact Nat.one_pos
  | factor name exponent =>
    obtain ⟨c, rest, rfl, -, -⟩ := isName_iff.mp (valid_factor h).1
    rw [chars_factor]
    exact Nat.succ_pos _

/-- A factor whose name and digits end where the text goes on otherwise is the longest. -/
theorem longest_factor {name : List Char} {exponent : Option Literal} {tokens : List Token}
    {cs : List Char} (hvalid : (Token.factor name exponent).Valid) (h : Spells tokens cs)
    (hsep : Separated (.factor name exponent :: tokens)) :
    Longest (.factor name exponent) ((Token.factor name exponent).chars ++ cs) := by
  obtain ⟨hname, hexponent⟩ := valid_factor hvalid
  have hchars := isNameChar_of_isName hname
  have hstop := stopsAt_exponent h hsep
  intro u hu hprefix
  cases u with
  | multiply => exact length_pos_of_valid hvalid
  | divide => exact length_pos_of_valid hvalid
  | factor name' exponent' =>
    obtain ⟨hname', hexponent'⟩ := valid_factor hu
    have hchars' := isNameChar_of_isName hname'
    obtain ⟨more, hmore⟩ := hprefix
    simp only [chars_factor, List.append_assoc, List.length_append] at hmore ⊢
    cases exponent' with
    | none =>
      have hlen := length_le_of_prefix hchars' hchars hstop hmore
      exact Nat.le_add_right_of_le hlen
    | some k =>
      -- The caret ends the other name, so both names are the same run.
      have hstop' : StopsAt isNameChar (exponentChars (some k) ++ more) := by
        intro c hc
        cases hc
        decide
      have hsame : name' = name := by
        rw [← takeWhile_run hchars' hstop', hmore, takeWhile_run hchars hstop]
      rw [hsame] at hmore ⊢
      have hafter := List.append_cancel_left hmore
      cases exponent with
      | none =>
        have hcaret := stopsAt_caret_of_spells h
        rw [show cs = _ from hafter.symm] at hcaret
        exact absurd (hcaret '^' rfl) (by decide)
      | some l =>
        have hliteral := List.cons.inj hafter
        have hlen := Literal.length_le (hexponent l rfl) (hexponent' k rfl)
          (stopsAt_digit_of_spells h) hliteral.2
        simp only [exponentChars, List.length_cons]
        omega

theorem longest_operator {t : Token} {c : Char} (ht : t.chars = [c]) (hc : isNameStart c = false)
    (cs : List Char) : Longest t (t.chars ++ cs) := by
  intro u hu hprefix
  rw [ht] at hprefix ⊢
  cases u with
  | multiply => exact Nat.le_refl 1
  | divide => exact Nat.le_refl 1
  | factor name exponent =>
    obtain ⟨d, rest, rfl, hd, -⟩ := isName_iff.mp (valid_factor hu).1
    rw [chars_factor] at hprefix
    obtain ⟨more, hmore⟩ := hprefix
    cases hmore
    rw [hc] at hd
    cases hd

theorem longest_of_separated {t : Token} {tokens : List Token} {cs : List Char} (ht : t.Valid)
    (h : Spells tokens cs) (hsep : Separated (t :: tokens)) : Longest t (t.chars ++ cs) := by
  cases t with
  | multiply => exact longest_operator (c := '*') rfl (by decide) cs
  | divide => exact longest_operator (c := '/') rfl (by decide) cs
  | factor name exponent => exact longest_factor ht h hsep

theorem longestMatch_of_separated {tokens : List Token} {cs : List Char} (h : Spells tokens cs)
    (hsep : Separated tokens) : LongestMatch tokens cs := by
  induction tokens generalizing cs with
  | nil =>
    rw [← h.chars]
    exact .nil
  | cons t rest ih =>
    have ht := h.valid t List.mem_cons_self
    rw [← h.chars, List.flatMap_cons]
    exact .cons ht (longest_of_separated ht h.tail hsep) (ih h.tail hsep.tail)

/-- Two names that meet are together a longer name. -/
theorem mayPrecede_of_longest {t u : Token} {cs : List Char} (ht : t.Valid) (hu : u.Valid)
    (hlongest : Longest t (t.chars ++ (u.chars ++ cs))) : MayPrecede t u := by
  by_contra hmeet
  obtain ⟨name, name', exponent, rfl, rfl⟩ := of_not_mayPrecede hmeet
  have hname' := (valid_factor hu).1
  have hjoined : isName (name ++ name') = true :=
    isName_append ht (isNameChar_of_isName hname')
  have hprefix : (Token.factor (name ++ name') none).chars <+:
      (Token.factor name none).chars ++ ((Token.factor name' exponent).chars ++ cs) := by
    refine ⟨exponentChars exponent ++ cs, ?_⟩
    simp only [chars_factor, exponentChars, List.append_assoc, List.nil_append]
  have hlen := hlongest (.factor (name ++ name') none) hjoined hprefix
  simp only [Token.chars, List.length_append] at hlen
  obtain ⟨c, rest, rfl, -, -⟩ := isName_iff.mp hname'
  simp only [List.length_cons] at hlen
  omega

theorem LongestMatch.separated {tokens : List Token} {cs : List Char}
    (h : LongestMatch tokens cs) : Separated tokens := by
  induction h with
  | nil => exact .nil
  | @cons t tokens cs valid longest rest ih =>
    refine separated_cons (fun u hu => ?_) ih
    cases rest with
    | nil => cases hu
    | cons valid' _ _ =>
      cases hu
      exact mayPrecede_of_longest valid valid' longest

/-- Scanning takes the longest token at every place, and fails only where none fits. -/
theorem scan_eq_ok_iff_longestMatch {cs : List Char} {tokens : List Token} :
    scan cs = .ok tokens ↔ LongestMatch tokens cs := by
  rw [scan_eq_ok_iff]
  constructor
  · rintro ⟨hspells, hsep⟩
    exact longestMatch_of_separated hspells hsep
  · intro h
    exact ⟨h.spells, h.separated⟩

theorem LongestMatch.unique {tokens tokens' : List Token} {cs : List Char}
    (h : LongestMatch tokens cs) (h' : LongestMatch tokens' cs) : tokens = tokens' := by
  have hscan := scan_eq_ok_iff_longestMatch.mpr h
  rw [scan_eq_ok_iff_longestMatch.mpr h'] at hscan
  exact (Except.ok.inj hscan).symm

theorem MayPrecede.rename {name name' : List Char} {exponent : Option Literal} {u : Token}
    (h : MayPrecede (.factor name exponent) u) : MayPrecede (.factor name' exponent) u := by
  by_contra hmeet
  obtain ⟨_, _, _, heq, rfl⟩ := of_not_mayPrecede hmeet
  cases heq
  exact h

theorem Spells.join {name name' : List Char} {exponent : Option Literal} {tokens : List Token}
    {cs : List Char} (h : Spells (.factor name none :: .factor name' exponent :: tokens) cs) :
    Spells (.factor (name ++ name') exponent :: tokens) cs := by
  have hname : isName name = true := h.valid _ List.mem_cons_self
  obtain ⟨hname', hexponent⟩ := valid_factor (h.tail.valid _ List.mem_cons_self)
  have hjoined := isName_append hname (isNameChar_of_isName hname')
  have hspells := Spells.cons (factor_valid hjoined hexponent) h.tail.tail
  have htext := h.chars
  simp only [List.flatMap_cons, chars_factor, exponentChars, List.nil_append,
    List.append_assoc] at htext hspells
  rwa [htext] at hspells

theorem exists_separated_cons {t : Token} {tokens : List Token} {cs : List Char}
    (h : Spells (t :: tokens) cs) (hsep : Separated tokens) :
    ∃ joined, Spells joined cs ∧ Separated joined := by
  by_cases hmeet : ∀ u ∈ tokens.head?, MayPrecede t u
  · exact ⟨t :: tokens, h, separated_cons hmeet hsep⟩
  · simp only [not_forall] at hmeet
    obtain ⟨u, hu, hmeet⟩ := hmeet
    obtain ⟨more, rfl⟩ : ∃ more, tokens = u :: more := List.head?_eq_some_iff.mp hu
    obtain ⟨name, name', exponent, rfl, rfl⟩ := of_not_mayPrecede hmeet
    obtain ⟨hhead, htail⟩ := List.isChain_cons.mp hsep
    exact ⟨_, h.join, separated_cons (fun v hv => (hhead v hv).rename) htail⟩

theorem exists_separated {tokens : List Token} {cs : List Char} (h : Spells tokens cs) :
    ∃ joined, Spells joined cs ∧ Separated joined := by
  induction tokens generalizing cs with
  | nil => exact ⟨[], h, .nil⟩
  | cons t rest ih =>
    obtain ⟨joined, hjoined, hsep⟩ := ih h.tail
    have hcons := Spells.cons (h.valid t List.mem_cons_self) hjoined
    rw [← List.flatMap_cons, h.chars] at hcons
    exact exists_separated_cons hcons hsep

/-- Whatever can be cut into tokens at all is scanned. -/
theorem scan_isOk_iff {cs : List Char} :
    (∃ tokens, scan cs = .ok tokens) ↔ ∃ tokens, Spells tokens cs := by
  constructor
  · rintro ⟨tokens, h⟩
    exact ⟨tokens, (of_scan h).1⟩
  · rintro ⟨tokens, h⟩
    obtain ⟨joined, hjoined, hsep⟩ := exists_separated h
    exact ⟨joined, scan_of_spells hjoined hsep⟩

end UnitExpr

end QuantityCalculus
