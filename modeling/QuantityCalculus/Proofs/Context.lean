import QuantityCalculus.Context
import QuantityCalculus.Proofs.Outcome

/-!
# Changes to a context

Whether a context can have some of its fields changed depends on the changes alone. If they
are valid, the new context has the contents given, as far as they are given, and otherwise
those of the old one.
-/
namespace QuantityCalculus

def ModeRequest.Asks : ModeRequest → SimplifyMode → Prop
  | member mode, asked => mode = asked
  | named v, asked => v = .text asked.name

theorem SimplifyMode.ofName?_eq_some_iff {x : String} {mode : SimplifyMode} :
    ofName? x = some mode ↔ x = mode.name := by
  constructor
  · intro h
    have hname := List.find?_some h
    exact (beq_iff_eq.mp hname).symm
  · rintro rfl
    exact ofName?_name mode

theorem ModeRequest.check_eq_ok_iff {request : ModeRequest} {mode : SimplifyMode} :
    request.check = .ok mode ↔ request.Asks mode := by
  cases request with
  | member m => simp [check, Asks]
  | named v =>
    have hunknown : ∀ shown : Except Error String,
        (shown >>= fun d => (.error (.unknownMode d) : Except Error SimplifyMode)) ≠ .ok mode := by
      intro shown h
      obtain ⟨d, -, hd⟩ := bind_eq_ok_iff.mp h
      cases hd
    cases v with
    | text x =>
      simp only [check, Asks, Value.text.injEq, ← SimplifyMode.ofName?_eq_some_iff]
      cases SimplifyMode.ofName? x with
      | some m => simp
      | none => exact iff_of_false (hunknown _) (by simp)
    | absent | number a | list items | map entries =>
      exact iff_of_false (hunknown _) (by simp [Asks])

theorem StrategyCandidate.check_eq_ok_iff {c : StrategyCandidate} {s : NumericStrategy} :
    c.check = .ok s ↔ c.toStrategy? = some s := by
  unfold check
  cases c.toStrategy? with
  | none => simp
  | some s' => simp

/-- A field is kept if nothing is given for it, and else it is what passes the check. -/
theorem elim_check_eq_ok_iff {α β : Type} {given : Option α} {kept new : β}
    {check : α → Except Error β} :
    given.elim (.ok kept) check = .ok new ↔
      (given = none → new = kept) ∧ ∀ x, given = some x → check x = .ok new := by
  cases given with
  | none => simp [eq_comm]
  | some x => simp

theorem exists_elim_check {α β : Type} {given : Option α} {kept : β} {check : α → Except Error β}
    (h : ∀ x, given = some x → ∃ new, check x = .ok new) :
    ∃ new, given.elim (.ok kept) check = .ok new := by
  cases given with
  | none => exact ⟨kept, rfl⟩
  | some x => exact h x rfl

namespace ContextChanges

structure Valid (changes : ContextChanges) : Prop where
  known : changes.unknownField = false
  strategy : ∀ x, changes.strategy = some x → ∃ s, x.toStrategy? = some s
  mode : ∀ x, changes.mode = some x → ∃ mode, x.Asks mode

/-- A context has the contents given, and otherwise those of the context before. -/
structure Turns (changes : ContextChanges) (before after : Context) : Prop where
  strategy_kept : changes.strategy = none → after.strategy = before.strategy
  strategy_given : ∀ x, changes.strategy = some x → x.toStrategy? = some after.strategy
  mode_kept : changes.mode = none → after.mode = before.mode
  mode_given : ∀ x, changes.mode = some x → x.Asks after.mode

variable {changes : ContextChanges} {before after : Context}

theorem replace_eq_ok_iff :
    before.replace changes = .ok after ↔
      changes.unknownField = false ∧ changes.Turns before after := by
  unfold Context.replace
  cases changes.unknownField with
  | true => simp
  | false =>
    simp only [Bool.false_eq_true, if_false, bind_eq_ok_iff, elim_check_eq_ok_iff,
      StrategyCandidate.check_eq_ok_iff, ModeRequest.check_eq_ok_iff, true_and]
    constructor
    · rintro ⟨strategy, ⟨hkept, hgiven⟩, mode, ⟨hmode, hm⟩, h⟩
      cases h
      exact ⟨hkept, hgiven, hmode, hm⟩
    · rintro ⟨hkept, hgiven, hmode, hm⟩
      exact ⟨after.strategy, ⟨hkept, hgiven⟩, after.mode, ⟨hmode, hm⟩, rfl⟩

theorem valid_iff (before : Context) :
    changes.Valid ↔ ∃ after, before.replace changes = .ok after := by
  constructor
  · rintro ⟨hknown, hstrategy, hmode⟩
    obtain ⟨strategy, hs⟩ : ∃ s,
        changes.strategy.elim (.ok before.strategy) StrategyCandidate.check = .ok s :=
      exists_elim_check fun x hx =>
        (hstrategy x hx).imp fun _ => StrategyCandidate.check_eq_ok_iff.mpr
    obtain ⟨mode, hm⟩ : ∃ m, changes.mode.elim (.ok before.mode) ModeRequest.check = .ok m :=
      exists_elim_check fun x hx => (hmode x hx).imp fun _ => ModeRequest.check_eq_ok_iff.mpr
    refine ⟨⟨strategy, mode⟩, ?_⟩
    rw [Context.replace, hknown, hs, hm]
    rfl
  · rintro ⟨after, h⟩
    obtain ⟨hknown, hturns⟩ := replace_eq_ok_iff.mp h
    exact ⟨hknown, fun x hx => ⟨_, hturns.strategy_given x hx⟩,
      fun x hx => ⟨_, hturns.mode_given x hx⟩⟩

end ContextChanges

end QuantityCalculus
