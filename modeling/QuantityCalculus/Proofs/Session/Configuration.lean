import QuantityCalculus.Proofs.Session.Installed
import QuantityCalculus.Proofs.Session.Modes

/-!
# Only the strategy in force counts

Of the default context a calculation uses the strategy alone, and that only if no context is
given for it, and it never changes the default context. So nothing that a program does to
contexts can be seen in its calculations, except by the strategy that was installed last.
-/
namespace QuantityCalculus

namespace Request

def hasContext : Request → Bool
  | combine _ _ _ (.ok (some _)) | power _ _ (.ok (some _)) => true
  | _ => false

/-- An operation for which no context is given, in a context. -/
def inContext (fields : ContextChanges) : Request → Request
  | combine op a b (.ok none) => combine op a b (.ok (some fields))
  | power a n (.ok none) => power a n (.ok (some fields))
  | r => r

end Request

/-- Contexts can be built from the fields, and have the strategy. -/
structure ContextChanges.Gives (fields : ContextChanges) (s : NumericStrategy) : Prop where
  valid : fields.Valid
  strategy : fields.strategy? = some s

theorem NumericStrategy.gives_toCandidate (s : NumericStrategy) (typeName : String) :
    ContextChanges.Gives { strategy := some (s.toCandidate typeName) } s where
  valid := by
    refine ⟨rfl, fun x hx => ⟨s, ?_⟩, fun x hx => (nomatch hx)⟩
    cases hx
    rfl
  strategy := rfl

namespace Session

variable {s : Session} {r : Request}

theorem answer_of_hasContext (h : r.hasContext) (d : Context) :
    { s with default := d }.answer r = s.answer r := by
  cases r with
  | combine op a b context =>
    obtain _ | _ | fields := context
    · cases h
    · cases h
    · rfl
  | power a n context =>
    obtain _ | _ | fields := context
    · cases h
    · cases h
    · rfl
  | _ => cases h

/-- A calculation depends on the default context by its strategy alone. -/
theorem answer_of_strategy (h : r.isCalculation) (mode : SimplifyMode) :
    { s with default := ⟨s.default.strategy, mode⟩ }.answer r = s.answer r := by
  cases r with
  | readContext | writeContext setting | replaceContext changes => cases h
  | _ => rfl

theorem strategyFor_of_gives {fields : ContextChanges} {strategy : NumericStrategy}
    (h : fields.Gives strategy) : s.strategyFor (some fields) = .ok strategy := by
  obtain ⟨c, hc⟩ := (ContextChanges.valid_iff {}).mp h.valid
  have hstrategy : c.strategy = strategy := by
    rw [ContextChanges.strategy_of_replace hc, h.strategy]
    rfl
  exact bind_eq_ok_iff.mpr ⟨c, hc, congrArg Except.ok hstrategy⟩

theorem answer_inContext {fields : ContextChanges} (h : fields.Gives s.default.strategy) :
    s.answer (r.inContext fields) = s.answer r := by
  have hfor : s.strategyFor (some fields) = s.strategyFor none := strategyFor_of_gives h
  cases r with
  | combine op a b context =>
    obtain _ | _ | given := context
    · rfl
    · change (s.lookUp a >>= fun left => s.lookUp b >>= fun right =>
        s.strategyFor (some fields) >>= _) = _
      rw [hfor]
      rfl
    · rfl
  | power a n context =>
    obtain _ | _ | given := context
    · rfl
    · change (s.lookUp a >>= fun base => s.strategyFor (some fields) >>= _) = _
      rw [hfor]
      rfl
    · rfl
  | _ => rfl

end Session

namespace Program

open State

theorem State.next_calculation {a b : State} (h : a.calculation?.isSome) (hnext : a.next = some b) :
    b.session.default = a.session.default := by
  cases step_of_next hnext with
  | leave | done | entered | refused | guarded => cases h
  | failed => rfl
  | @answered s r a name rest frames hanswer =>
    refine Session.record_default ?_
    rintro x rfl
    cases h

/-- Contexts that are given make the default context irrelevant, and calculations leave it as
it is. Programs that differ in valid modes alone go on in lockstep and have the same results.
Without a context, operations give what they give in a context with the strategy last
installed. -/
theorem only_strategy_in_force_counts :
    ((∀ (s : Session) (r : Request) (d : Context), r.hasContext →
        { s with default := d }.answer r = s.answer r) ∧
      ∀ a b : State, a.calculation?.isSome → a.next = some b →
        b.session.default = a.session.default) ∧
    (∀ (s s' : Session) (p p' : Program), p.ModesValid → p'.ModesValid →
      s.withoutMode = s'.withoutMode → p.withoutModes = p'.withoutModes → ∀ n,
        Option.Rel (fun b b' => SameButModes b b' ∧ b.calculation? = b'.calculation?)
          (State.after ⟨s, .run p, []⟩ n) (State.after ⟨s', .run p', []⟩ n)) ∧
    ∀ (s : Session) (p : Program) (n : Nat) (a : State),
      State.after ⟨s, .run p, []⟩ n = some a → ∀ r : Request,
        (∀ fields : ContextChanges, fields.Gives (ledger s p n).installed →
          a.session.answer (r.inContext fields) = a.session.answer r) ∧
        (r.isCalculation → ∀ mode,
          { a.session with default := ⟨(ledger s p n).installed, mode⟩ }.answer r =
            a.session.answer r) := by
  refine ⟨⟨fun s r d h => Session.answer_of_hasContext h d, fun a b => next_calculation⟩,
    ?_, ?_⟩
  · intro s s' p p' hp hp' hs hsame n
    have hstart : SameButModes ⟨s, .run p, []⟩ ⟨s', .run p', []⟩ := by
      refine ⟨⟨hp, List.forall_mem_nil _⟩, ⟨hp', List.forall_mem_nil _⟩, ?_⟩
      rw [State.withoutModes, State.withoutModes, Control.withoutModes, Control.withoutModes,
        hs, hsame]
    have hafter := hstart.after n
    generalize State.after ⟨s, .run p, []⟩ n = b, State.after ⟨s', .run p', []⟩ n = b' at hafter ⊢
    cases hafter with
    | none => exact .none
    | some hb => exact .some ⟨hb, hb.calculation?_eq⟩
  · intro s p n a ha r
    rw [(ledger_shows ha).installed]
    exact ⟨fun fields => Session.answer_inContext, fun h mode => Session.answer_of_strategy h mode⟩

theorem square_alike_in_manual_and_step_mode :
    let s : Session := { registers := [("a", .quantity (.dimensionless (.integer 3)))] }
    let fraction : ContextChanges := { strategy := some (NumericStrategy.fraction.toCandidate "") }
    let trace : ContextChanges := { strategy := some (NumericStrategy.trace.toCandidate "") }
    let square : Request := .combine .mul (.register "a") (.register "a") (.ok none)
    let program (mode : SimplifyMode) : Program :=
      .block { mode := some (.named (.text mode.name)) }
        (.request (.writeContext (.strategy (NumericStrategy.fraction.toCandidate ""))) none
          (.request square none .done)) .done
    { s with default := ⟨.fraction, .step⟩ }.answer (square.inContext trace) =
        s.answer (square.inContext trace) ∧
      ∃ b b' c : State, State.after ⟨s, .run (program .manual), []⟩ 2 = some b ∧
        State.after ⟨s, .run (program .step), []⟩ 2 = some b' ∧
        b.session.default.mode ≠ b'.session.default.mode ∧
        b.calculation?.isSome ∧ b.calculation? = b'.calculation? ∧
        b.session.answer (square.inContext fraction) = b.session.answer square ∧
        b.next = some c ∧ c.session.default = b.session.default := by
  intro s fraction trace square program
  obtain ⟨⟨hcontext, hkept⟩, hmodes, hinstalled⟩ := only_strategy_in_force_counts
  have hvalid : ∀ mode, (program mode).ModesValid := by
    intro mode
    refine ⟨fun request hrequest => ?_, ⟨trivial, fun fields hfields => (nomatch hfields), trivial⟩,
      trivial⟩
    cases hrequest
    exact ⟨mode, rfl⟩
  let inMode (mode : SimplifyMode) (control : Control) : State :=
    ⟨{ s with default := ⟨.fraction, mode⟩ }, control, [.block {} .done]⟩
  let next : Control := .run (.request square none .done)
  have hmanual : State.after ⟨s, .run (program .manual), []⟩ 2 = some (inMode .manual next) := rfl
  have hstep : State.after ⟨s, .run (program .step), []⟩ 2 = some (inMode .step next) := rfl
  have hsquared : (inMode .manual next).next = some (inMode .manual (.run .done)) := rfl
  have hlockstep := hmodes s s _ _ (hvalid .manual) (hvalid .step) rfl rfl 2
  rw [hmanual, hstep] at hlockstep
  cases hlockstep with
  | some hsame =>
    have hfraction := (hinstalled s _ 2 _ hmanual square).1 fraction
      (NumericStrategy.fraction.gives_toCandidate "")
    exact ⟨hcontext s _ _ rfl, _, _, _, hmanual, hstep, by decide, rfl, hsame.2, hfraction, hsquared,
      hkept _ _ rfl hsquared⟩

end Program

end QuantityCalculus
