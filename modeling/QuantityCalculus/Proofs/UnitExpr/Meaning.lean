import QuantityCalculus.Proofs.Dimension.Exponents
import QuantityCalculus.Proofs.UnitExpr.LongestMatch
import QuantityCalculus.UnitExpr.Spec

/-!
# What unit expressions mean

The exponent of a symbol is a sum over the places where its name stands. Every place
counts with its own exponent and with the sign that the last operator before it sets.
Together with the longest matches this says which texts are read, and as what.
-/
namespace QuantityCalculus

namespace UnitExpr

def Token.isOperator : Token → Bool
  | multiply | divide => true
  | factor _ _ => false

def lastOperator (tokens : List Token) : Option Token :=
  (tokens.filter Token.isOperator).getLast?

/-- The sign of what stands behind some tokens. -/
def signAfter (tokens : List Token) : Int :=
  if lastOperator tokens = some .divide then -1 else 1

/-- What one token contributes to a symbol before its sign is applied. -/
def Token.contribution (x : String) : Token → Int
  | multiply | divide => 0
  | factor name exponent => if String.ofList name = x then exponentValue exponent else 0

/-- The sign behind some tokens when a sign was in force before them. -/
def signFrom (dividing : Bool) (tokens : List Token) : Int :=
  match lastOperator tokens with
  | none => if dividing then -1 else 1
  | some t => if t = .divide then -1 else 1

theorem signFrom_false (tokens : List Token) : signFrom false tokens = signAfter tokens := by
  unfold signFrom signAfter
  cases lastOperator tokens with
  | none => rfl
  | some t => simp

theorem lastOperator_operator {t : Token} (ht : t.isOperator = true) (tokens : List Token) :
    lastOperator (t :: tokens) = some ((lastOperator tokens).getD t) := by
  unfold lastOperator
  rw [List.filter_cons_of_pos ht, List.getLast?_cons]

theorem signFrom_multiply (dividing : Bool) (tokens : List Token) :
    signFrom dividing (.multiply :: tokens) = signFrom false tokens := by
  unfold signFrom
  rw [lastOperator_operator rfl]
  cases lastOperator tokens <;> rfl

theorem signFrom_divide (dividing : Bool) (tokens : List Token) :
    signFrom dividing (.divide :: tokens) = signFrom true tokens := by
  unfold signFrom
  rw [lastOperator_operator rfl]
  cases lastOperator tokens <;> rfl

theorem signFrom_factor (dividing : Bool) (name : List Char) (exponent : Option Literal)
    (tokens : List Token) :
    signFrom dividing (.factor name exponent :: tokens) = signFrom dividing tokens := rfl

/-- The powers of a symbol add up place by place, whatever sign was in force before. -/
theorem exponentSum_powers (x : String) (dividing : Bool) (tokens : List Token) :
    exponentSum x (powers dividing tokens) =
      ∑ i : Fin tokens.length, signFrom dividing (tokens.take i) * tokens[i].contribution x := by
  induction tokens generalizing dividing with
  | nil => rfl
  | cons t rest ih =>
    -- the first token is in front of all others, so it is what their signs are looked up from
    have hsplit : ∑ i : Fin (t :: rest).length,
          signFrom dividing ((t :: rest).take i) * (t :: rest)[i].contribution x =
        signFrom dividing [] * t.contribution x +
          ∑ i : Fin rest.length,
            signFrom dividing (t :: rest.take i) * rest[i].contribution x :=
      Fin.sum_univ_succ _
    rw [hsplit]
    cases t with
    | multiply =>
      simp only [signFrom_multiply, Token.contribution, Int.mul_zero, Int.zero_add]
      exact ih false
    | divide =>
      simp only [signFrom_divide, Token.contribution, Int.mul_zero, Int.zero_add]
      exact ih true
    | factor name exponent =>
      simp only [signFrom_factor, powers, exponentSum_cons, ih, Token.contribution]
      congr 1
      cases dividing <;> split <;> simp [signFrom, lastOperator]

theorem exponent_meaning (x : String) (tokens : List Token) :
    (meaning tokens).exponent x =
      ∑ i : Fin tokens.length, signAfter (tokens.take i) * tokens[i].contribution x := by
  simp only [meaning, DimensionMap.exponent_ofList, exponentSum_powers, signFrom_false]

theorem readValue_text (text : String) : readValue (.text text) = read text := by
  unfold readValue
  split
  · rename_i hvacant
    have hempty : text = "" := String.isEmpty_iff.mp hvacant
    rw [hempty, read, show Text.squeeze "".toList = [] from rfl, scan_nil]
    rfl
  · rfl

theorem readValue_eq_ok_iff {text : String} {m : DimensionMap} :
    readValue (.text text) = .ok m ↔
      ∃ tokens, LongestMatch tokens (Text.squeeze text.toList) ∧ meaning tokens = m := by
  simp only [readValue_text, read, ← scan_eq_ok_iff_longestMatch]
  cases scan (Text.squeeze text.toList) with
  | error stop =>
    constructor
    · intro h
      cases h
    · rintro ⟨tokens, h, -⟩
      cases h
  | ok tokens =>
    constructor
    · intro h
      exact ⟨tokens, rfl, Except.ok.inj h⟩
    · rintro ⟨tokens', h, rfl⟩
      rw [Except.ok.inj h]

theorem readValue_isOk_iff (text : String) :
    (∃ m, readValue (.text text) = .ok m) ↔
      ∃ tokens, Spells tokens (Text.squeeze text.toList) := by
  simp only [readValue_eq_ok_iff, ← scan_isOk_iff, scan_eq_ok_iff_longestMatch]
  constructor
  · rintro ⟨m, tokens, h, -⟩
    exact ⟨tokens, h⟩
  · rintro ⟨tokens, h⟩
    exact ⟨_, tokens, h, rfl⟩

/-- A text is read exactly if it can be cut into tokens once its blanks are removed. The
longest matches are then one sequence of tokens, every symbol gets the signed sum of the
exponents at its places, and no entry is zero. -/
theorem readValue_accepts_and_means (text : String) :
    ((∃ m, readValue (.text text) = .ok m) ↔
      ∃ tokens, Spells tokens (Text.squeeze text.toList)) ∧
    ∀ m, readValue (.text text) = .ok m →
      (∀ e ∈ m.entries, e.2 ≠ 0) ∧
      ∃ tokens, LongestMatch tokens (Text.squeeze text.toList) ∧
        (∀ others, LongestMatch others (Text.squeeze text.toList) → others = tokens) ∧
        ∀ x, m.exponent x =
          ∑ i : Fin tokens.length, signAfter (tokens.take i) * tokens[i].contribution x := by
  refine ⟨readValue_isOk_iff text, ?_⟩
  intro m hm
  obtain ⟨tokens, htokens, rfl⟩ := readValue_eq_ok_iff.mp hm
  refine ⟨(meaning tokens).nonzero, tokens, htokens, ?_, ?_⟩
  · intro others hothers
    exact hothers.unique htokens
  · intro x
    exact exponent_meaning x tokens

end UnitExpr

end QuantityCalculus
