import QuantityCalculus.Proofs.Dimension.Unchecked
import QuantityCalculus.Proofs.UnitExpr.Meaning
import QuantityCalculus.Quantity.Basic

/-!
# Unit expressions joined by an operator

No token reaches over an operator, so an expression is cut at each of its operators and its
parts are read on their own. A multiplication sign starts its part as every text starts; behind
a division sign all signs count the other way round, which exchanging the operators makes up
for. Reading thus turns joined texts into products and quotients of what the parts denote.
-/
namespace QuantityCalculus

namespace UnitExpr

variable {o : Token} {tokens before after : List Token} {cs ds : List Char}

theorem valid_of_isOperator (ho : o.isOperator = true) : o.Valid := by
  cases o with
  | multiply => trivial
  | divide => trivial
  | factor name exponent => cases ho

theorem exists_chars_of_isOperator (ho : o.isOperator = true) : ∃ c, o.chars = [c] := by
  cases o with
  | multiply => exact ⟨'*', rfl⟩
  | divide => exact ⟨'/', rfl⟩
  | factor name exponent => cases ho

theorem ne_sign_of_mem_factor {name : List Char} {exponent : Option Literal}
    (h : (Token.factor name exponent).Valid) :
    ∀ c ∈ (Token.factor name exponent).chars, c ≠ '*' ∧ c ≠ '/' := by
  refine forall_mem_factor (fun c hc => ⟨?_, ?_⟩) (by decide) (by decide) h
  · rintro rfl
    exact absurd hc (by decide)
  · rintro rfl
    exact absurd hc (by decide)

/-- The sign of an operator occurs in no other token. -/
theorem eq_of_mem_chars (ho : o.isOperator = true) {t : Token} (ht : t.Valid) {c : Char}
    (hc : o.chars = [c]) (hmem : c ∈ t.chars) : t = o := by
  cases o with
  | multiply =>
    cases hc
    cases t with
    | multiply => rfl
    | divide => exact absurd hmem (by decide)
    | factor name exponent => exact absurd rfl (ne_sign_of_mem_factor ht _ hmem).1
  | divide =>
    cases hc
    cases t with
    | multiply => exact absurd hmem (by decide)
    | divide => rfl
    | factor name exponent => exact absurd rfl (ne_sign_of_mem_factor ht _ hmem).2
  | factor name exponent => cases ho

theorem Spells.append (h : Spells before cs) (h' : Spells after ds) :
    Spells (before ++ after) (cs ++ ds) := by
  refine ⟨fun t ht => ?_, by rw [List.flatMap_append, h.chars, h'.chars]⟩
  rcases List.mem_append.mp ht with ht | ht
  · exact h.valid t ht
  · exact h'.valid t ht

/-- Tokens that spell a text with an operator in it have this operator at its place. -/
theorem Spells.exists_cut (ho : o.isOperator = true) (h : Spells tokens (cs ++ (o.chars ++ ds))) :
    ∃ before after, tokens = before ++ o :: after ∧ Spells before cs ∧ Spells after ds := by
  obtain ⟨c, hc⟩ := exists_chars_of_isOperator ho
  induction tokens generalizing cs with
  | nil =>
    have hnil := h.chars
    rw [hc] at hnil
    simp at hnil
  | cons t rest ih =>
    have ht := h.valid t List.mem_cons_self
    -- The first token ends within the text before the operator, or it is the operator.
    have hrest : ∀ more, cs = t.chars ++ more →
        rest.flatMap Token.chars = more ++ (o.chars ++ ds) →
        ∃ before after, t :: rest = before ++ o :: after ∧ Spells before cs ∧ Spells after ds := by
      rintro more rfl hmore
      obtain ⟨before, after, rfl, hbefore, hafter⟩ := ih (hmore ▸ h.tail)
      exact ⟨t :: before, after, rfl, .cons ht hbefore, hafter⟩
    have hchars := h.chars
    rw [List.flatMap_cons] at hchars
    rcases List.append_eq_append_iff.mp hchars with ⟨more, hcs, hmore⟩ | ⟨more, htok, hmore⟩
    · exact hrest more hcs hmore
    · cases more with
      | nil => exact hrest [] (by simpa using htok.symm) (by simpa using hmore.symm)
      | cons d more =>
        rw [hc] at hmore
        cases hmore
        have heq : t = o := eq_of_mem_chars ho ht hc (by simp [htok])
        rw [heq, hc] at htok
        obtain ⟨rfl, rfl⟩ : cs = [] ∧ more = [] := by
          simpa [List.singleton_eq_append_iff] using htok
        exact ⟨[], rest, by rw [heq]; rfl, ⟨by simp, rfl⟩, h.tail⟩

theorem mayPrecede_operator (ho : o.isOperator = true) (t : Token) :
    MayPrecede t o ∧ MayPrecede o t := by
  cases o with
  | multiply => cases t with
    | factor name exponent => cases exponent <;> exact ⟨trivial, trivial⟩
    | multiply | divide => exact ⟨trivial, trivial⟩
  | divide => cases t with
    | factor name exponent => cases exponent <;> exact ⟨trivial, trivial⟩
    | multiply | divide => exact ⟨trivial, trivial⟩
  | factor name exponent => cases ho

theorem separated_append_operator (ho : o.isOperator = true) :
    Separated (before ++ o :: after) ↔ Separated before ∧ Separated after := by
  unfold Separated
  rw [List.isChain_append, List.isChain_cons]
  constructor
  · rintro ⟨hbefore, ⟨-, hafter⟩, -⟩
    exact ⟨hbefore, hafter⟩
  · rintro ⟨hbefore, hafter⟩
    refine ⟨hbefore, ⟨fun t _ => (mayPrecede_operator ho t).2, hafter⟩, ?_⟩
    intro t _ u hu
    cases hu
    exact (mayPrecede_operator ho t).1

/-- A text with an operator in it is scanned exactly if both sides of it are. -/
theorem scan_operator_eq_ok_iff (ho : o.isOperator = true) :
    scan (cs ++ (o.chars ++ ds)) = .ok tokens ↔
      ∃ before after, scan cs = .ok before ∧ scan ds = .ok after ∧
        tokens = before ++ o :: after := by
  simp only [scan_eq_ok_iff]
  constructor
  · rintro ⟨hspells, hsep⟩
    obtain ⟨before, after, rfl, hbefore, hafter⟩ := hspells.exists_cut ho
    obtain ⟨hsep, hsep'⟩ := (separated_append_operator ho).mp hsep
    exact ⟨before, after, ⟨hbefore, hsep⟩, ⟨hafter, hsep'⟩, rfl⟩
  · rintro ⟨before, after, ⟨hbefore, hsep⟩, ⟨hafter, hsep'⟩, rfl⟩
    exact ⟨hbefore.append (.cons (valid_of_isOperator ho) hafter),
      (separated_append_operator ho).mpr ⟨hsep, hsep'⟩⟩

/-- The sign of the other operator; all other characters stay. -/
def swapSign (c : Char) : Char := if c = '*' then '/' else if c = '/' then '*' else c

def Token.swap : Token → Token
  | multiply => divide
  | divide => multiply
  | factor name exponent => factor name exponent

theorem swapSign_swapSign (c : Char) : swapSign (swapSign c) = c := by
  unfold swapSign
  by_cases hmultiply : c = '*'
  · simp [hmultiply]
  · by_cases hdivide : c = '/' <;> simp [hmultiply, hdivide]

theorem map_swapSign_map_swapSign (cs : List Char) : (cs.map swapSign).map swapSign = cs := by
  rw [List.map_map]
  exact (List.map_congr_left fun c _ => swapSign_swapSign c).trans (List.map_id cs)

theorem isBlank_swapSign (c : Char) : Text.isBlank (swapSign c) = Text.isBlank c := by
  unfold swapSign
  by_cases hmultiply : c = '*'
  · rw [if_pos hmultiply, hmultiply]
    decide
  · by_cases hdivide : c = '/'
    · rw [if_neg hmultiply, if_pos hdivide, hdivide]
      decide
    · rw [if_neg hmultiply, if_neg hdivide]

theorem squeeze_map_swapSign (cs : List Char) :
    Text.squeeze (cs.map swapSign) = (Text.squeeze cs).map swapSign := by
  unfold Text.squeeze
  rw [List.filter_map]
  congr 2
  funext c
  exact congrArg (!·) (isBlank_swapSign c)

theorem Token.swap_swap (t : Token) : t.swap.swap = t := by cases t <;> rfl

theorem map_swap_map_swap (tokens : List Token) :
    (tokens.map Token.swap).map Token.swap = tokens := by
  rw [List.map_map]
  exact (List.map_congr_left fun t _ => t.swap_swap).trans (List.map_id tokens)

theorem Token.valid_swap {t : Token} (h : t.Valid) : t.swap.Valid := by
  cases t with
  | multiply => trivial
  | divide => trivial
  | factor name exponent => exact h

theorem Token.chars_swap {t : Token} (h : t.Valid) : t.swap.chars = t.chars.map swapSign := by
  cases t with
  | multiply => rfl
  | divide => rfl
  | factor name exponent =>
    have hsame : ∀ c ∈ (factor name exponent).chars, swapSign c = c := by
      intro c hc
      obtain ⟨hmultiply, hdivide⟩ := ne_sign_of_mem_factor h c hc
      rw [swapSign, if_neg hmultiply, if_neg hdivide]
    exact ((List.map_congr_left hsame).trans (List.map_id _)).symm

theorem mayPrecede_swap (t u : Token) : MayPrecede t.swap u.swap ↔ MayPrecede t u := by
  cases t with
  | multiply | divide => exact Iff.rfl
  | factor name exponent => cases exponent <;> cases u <;> exact Iff.rfl

theorem Spells.swap (h : Spells tokens cs) : Spells (tokens.map Token.swap) (cs.map swapSign) := by
  constructor
  · intro t ht
    obtain ⟨u, hu, rfl⟩ := List.mem_map.mp ht
    exact Token.valid_swap (h.valid u hu)
  · rw [← h.chars, List.map_flatMap, List.flatMap_map]
    exact List.flatMap_congr fun t ht => Token.chars_swap (h.valid t ht)

theorem scan_map_swapSign (h : scan cs = .ok tokens) :
    scan (cs.map swapSign) = .ok (tokens.map Token.swap) := by
  obtain ⟨hspells, hsep⟩ := of_scan h
  refine scan_of_spells hspells.swap ?_
  unfold Separated
  rw [List.isChain_map]
  exact hsep.imp fun t u => (mayPrecede_swap t u).mpr

/-- Exchanging the operators of a text exchanges them in its tokens. -/
theorem scan_map_swapSign_eq_ok_iff :
    scan (cs.map swapSign) = .ok tokens ↔
      ∃ swapped, scan cs = .ok swapped ∧ tokens = swapped.map Token.swap := by
  constructor
  · intro h
    refine ⟨tokens.map Token.swap, ?_, (map_swap_map_swap tokens).symm⟩
    rw [← map_swapSign_map_swapSign cs]
    exact scan_map_swapSign h
  · rintro ⟨swapped, h, rfl⟩
    exact scan_map_swapSign h

theorem powers_append_operator (ho : o.isOperator = true) (dividing : Bool) :
    powers dividing (before ++ o :: after) =
      powers dividing before ++ powers (decide (o = .divide)) after := by
  induction before generalizing dividing with
  | nil =>
    cases o with
    | multiply | divide => rfl
    | factor name exponent => cases ho
  | cons t rest ih =>
    cases t with
    | multiply => exact ih false
    | divide => exact ih true
    | factor name exponent => exact congrArg _ (ih dividing)

theorem powers_map_swap (dividing : Bool) (tokens : List Token) :
    powers (!dividing) (tokens.map Token.swap) =
      (powers dividing tokens).map fun p => (p.1, -p.2) := by
  induction tokens generalizing dividing with
  | nil => rfl
  | cons t rest ih =>
    cases t with
    | multiply => exact ih false
    | divide => exact ih true
    | factor name exponent =>
      simp only [List.map_cons, Token.swap, powers, ih]
      cases dividing <;> simp

theorem exponentSum_map_neg (x : String) (powers : List (String × Int)) :
    exponentSum x (powers.map fun p => (p.1, -p.2)) = -exponentSum x powers := by
  induction powers with
  | nil => rfl
  | cons p rest ih =>
    simp only [List.map_cons, exponentSum_cons, ih]
    split <;> omega

theorem meaning_multiply_agrees (before after : List Token) :
    (meaning (before ++ .multiply :: after)).agrees (meaning before + meaning after) = true := by
  rw [DimensionMap.agrees_iff_exponent]
  intro x
  rw [DimensionMap.exponent_add]
  simp only [meaning, DimensionMap.exponent_ofList]
  rw [powers_append_operator rfl, exponentSum_append]
  rfl

theorem meaning_divide_agrees (before after : List Token) :
    (meaning (before ++ .divide :: after.map Token.swap)).agrees
      (meaning before - meaning after) = true := by
  rw [DimensionMap.agrees_iff_exponent]
  intro x
  rw [DimensionMap.exponent_sub]
  simp only [meaning, DimensionMap.exponent_ofList]
  have hswap := powers_map_swap false after
  rw [powers_append_operator rfl, exponentSum_append]
  change _ + exponentSum x (powers (!false) (after.map Token.swap)) = _
  rw [hswap, exponentSum_map_neg]
  omega

def combineRead (f : Quantity → Quantity → Except Error Quantity) (v : Value) (s : String)
    (w : Value) (t : String) : Except Error Quantity := do
  f (← Quantity.ofSpec .physical v (.text s)) (← Quantity.ofSpec .physical w (.text t))

/-- A joined text is read if both of its parts are, and then as the maps of the parts combined.
Quantities in the units of the parts have these units when they are combined, and nothing but
the combination of their payloads can fail. -/
structure ReadsCombined (text s t : String) (onMaps : Value → Value → Except Error DimensionMap)
    (onPayloads : NumericStrategy → Value → Value → Except Error Value)
    (onQuantities : NumericStrategy → Quantity → Quantity → Except Error Quantity) : Prop where
  accepted : (∃ m, readValue (.text text) = .ok m) ↔
    (∃ a, readValue (.text s) = .ok a) ∧ ∃ b, readValue (.text t) = .ok b
  denotes : ∀ m a b, readValue (.text text) = .ok m → readValue (.text s) = .ok a →
    readValue (.text t) = .ok b →
      ∃ c, onMaps a.toValue b.toValue = .ok c ∧ m.agrees c = true ∧
        ∀ strategy v w, combineRead (onQuantities strategy) v s w t =
          (do .ok ⟨← onPayloads strategy v w, .single .physical c⟩)

theorem readValue_eq_ok_iff_scan {text : String} {m : DimensionMap} :
    readValue (.text text) = .ok m ↔
      ∃ tokens, scan (Text.squeeze text.toList) = .ok tokens ∧ meaning tokens = m := by
  simp only [readValue_eq_ok_iff, scan_eq_ok_iff_longestMatch]

theorem ofSpec_of_readValue {text : String} {m : DimensionMap}
    (h : readValue (.text text) = .ok m) (v : Value) :
    Quantity.ofSpec .physical v (.text text) = .ok ⟨v, .single .physical m⟩ := by
  unfold Quantity.ofSpec DimensionMap.ofSpec
  rw [h]
  rfl

theorem readsCombined_of_scan {text s t : String}
    {onMaps : Value → Value → Except Error DimensionMap}
    {onPayloads : NumericStrategy → Value → Value → Except Error Value}
    {onQuantities : NumericStrategy → Quantity → Quantity → Except Error Quantity}
    {join : List Token → List Token → List Token}
    {combined : DimensionMap → DimensionMap → DimensionMap}
    (hscan : ∀ tokens, scan (Text.squeeze text.toList) = .ok tokens ↔
      ∃ before after, scan (Text.squeeze s.toList) = .ok before ∧
        scan (Text.squeeze t.toList) = .ok after ∧ tokens = join before after)
    (hmeaning : ∀ before after,
      (meaning (join before after)).agrees (combined (meaning before) (meaning after)) = true)
    (hmaps : ∀ a b, onMaps a.toValue b.toValue = .ok (combined a b))
    (hquantities : ∀ strategy v w a b,
      onQuantities strategy ⟨v, .single .physical a⟩ ⟨w, .single .physical b⟩ =
        (do .ok ⟨← onPayloads strategy v w, .single .physical (combined a b)⟩)) :
    ReadsCombined text s t onMaps onPayloads onQuantities := by
  constructor
  · simp only [readValue_eq_ok_iff_scan, hscan]
    constructor
    · rintro ⟨m, tokens, ⟨before, after, hbefore, hafter, -⟩, -⟩
      exact ⟨⟨_, before, hbefore, rfl⟩, ⟨_, after, hafter, rfl⟩⟩
    · rintro ⟨⟨a, before, hbefore, -⟩, ⟨b, after, hafter, -⟩⟩
      exact ⟨_, _, ⟨before, after, hbefore, hafter, rfl⟩, rfl⟩
  · intro m a b hm ha hb
    refine ⟨combined a b, hmaps a b, ?_, ?_⟩
    · simp only [readValue_eq_ok_iff_scan] at hm ha hb
      obtain ⟨tokens, htokens, rfl⟩ := hm
      obtain ⟨before, hbefore, rfl⟩ := ha
      obtain ⟨after, hafter, rfl⟩ := hb
      have hjoined := (hscan _).mpr ⟨before, after, hbefore, hafter, rfl⟩
      rw [Except.ok.inj (htokens.symm.trans hjoined)]
      exact hmeaning before after
    · intro strategy v w
      unfold combineRead
      rw [ofSpec_of_readValue ha v, ofSpec_of_readValue hb w]
      exact hquantities strategy v w a b

/-- A multiplication sign multiplies, and so does a division sign divide if the operators of
what follows are exchanged. -/
theorem joined_texts_combine (s t : String) :
    ReadsCombined (s ++ "*" ++ t) s t Unchecked.add NumericStrategy.mul Quantity.mul ∧
      ReadsCombined (s ++ "/" ++ t.map swapSign) s t Unchecked.quotient NumericStrategy.div
        Quantity.div := by
  constructor
  · refine readsCombined_of_scan (fun tokens => ?_) meaning_multiply_agrees Unchecked.add_toValue
      fun strategy v w a b => rfl
    rw [String.append_assoc, String.toList_append, String.toList_append, Text.squeeze_append,
      Text.squeeze_append]
    exact scan_operator_eq_ok_iff (o := .multiply) rfl
  · refine readsCombined_of_scan (fun tokens => ?_) meaning_divide_agrees
      Unchecked.quotient_toValue fun strategy v w a b => rfl
    rw [String.append_assoc, String.toList_append, String.toList_append, String.toList_map,
      Text.squeeze_append, Text.squeeze_append, squeeze_map_swapSign]
    refine (scan_operator_eq_ok_iff (o := .divide) rfl).trans ?_
    simp only [scan_map_swapSign_eq_ok_iff]
    constructor
    · rintro ⟨before, -, hbefore, ⟨after, hafter, rfl⟩, rfl⟩
      exact ⟨before, after, hbefore, hafter, rfl⟩
    · rintro ⟨before, after, hbefore, hafter, rfl⟩
      exact ⟨before, _, hbefore, ⟨after, hafter, rfl⟩, rfl⟩

end UnitExpr

end QuantityCalculus
