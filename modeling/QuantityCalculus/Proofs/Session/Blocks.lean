import QuantityCalculus.Proofs.Context
import QuantityCalculus.Proofs.Session.Program

/-!
# Blocks give the default context back

A block whose changes are valid is entered in a context that differs from the one before in
the fields given alone. However often the body writes the default context and whatever blocks
it opens, the body comes to an end, and whether it ends normally or by an error, the next
step leaves the block with the context from before. A block whose changes are not valid is
over after one step, which changes nothing and passes an error on. The blocks of scripts are
of this kind, by `Script.runsOn_toProgram`.
-/
namespace QuantityCalculus

namespace Program

open State

/-- In a run from the first state, the second is the last one with all of these frames, and
the third comes next. -/
def Leaves (frames : List Frame) (entered last after : State) : Prop :=
  RunsOn frames entered last ∧ last.next = some after ∧ ¬frames <:+ after.frames

variable {f : Frame} {frames : List Frame} {entered last after b : State}

/-- Frames are only left from the top, so what is left first is the topmost frame. -/
theorem Leaves.leave (h : Leaves (f :: frames) entered last after)
    (hentered : f :: frames <:+ entered.frames) :
    ∃ leftBy, last.control = .exit leftBy ∧ after = f.leave last.session leftBy frames := by
  obtain ⟨hrun, hnext, hleft⟩ := h
  have hlast := hrun.suffix hentered
  rcases next_frames hnext with hkept | ⟨f', leftBy, frames', heq, hafter⟩
  · exact absurd (hlast.trans hkept) hleft
  · rw [heq] at hlast
    rcases List.suffix_cons_iff.mp hlast with hsame | hbelow
    · cases hsame
      exact ⟨leftBy, by rw [heq], hafter⟩
    · rw [hafter, Frame.frames_leave] at hleft
      exact absurd hbelow hleft

/-- However a run goes on a frame, there is a state in which the frame is left. -/
theorem exists_leaves (body : Program) (s : Session) (f : Frame) (frames : List Frame) :
    ∃ last after, Leaves (f :: frames) ⟨s, .run body, f :: frames⟩ last after := by
  obtain ⟨s', leftBy, hrun⟩ := body.ends s (f :: frames)
  refine ⟨_, f.leave s' leftBy frames, hrun, rfl, fun hsuffix => ?_⟩
  rw [Frame.frames_leave] at hsuffix
  exact absurd hsuffix.length_le (by simp)

theorem runsOn_or_leaves (hentered : frames <:+ entered.frames) (h : Steps entered b) :
    RunsOn frames entered b ∨ ∃ last after, Leaves frames entered last after ∧ Steps after b := by
  induction h with
  | refl => exact .inl .refl
  | @tail b c _ hnext ih =>
    rcases ih with hon | ⟨last, after, hleaves, hsteps⟩
    · by_cases hc : frames <:+ c.frames
      · exact .inl (hon.tail ⟨hnext, hon.suffix hentered, hc⟩)
      · exact .inr ⟨b, c, ⟨hon, hnext, hc⟩, .refl⟩
    · exact .inr ⟨last, after, hleaves, hsteps.tail hnext⟩

/-- How a block goes on once it is entered from a context, with a program behind it. -/
structure GivesBack (before : Context) (rest : Program) (frames : List Frame) (entered : State) :
    Prop where
  left : ∃ last after, Leaves (.block before rest :: frames) entered last after
  /-- There is no other way out. -/
  left_or_inside : ∀ b, Steps entered b → .block before rest :: frames <:+ b.frames ∨
    ∃ last after, Leaves (.block before rest :: frames) entered last after ∧ Steps after b
  /-- The context from before is back, and the block's error, if there is one, goes on. -/
  restored : ∀ last after, Leaves (.block before rest :: frames) entered last after →
    after.session = { last.session with default := before } ∧ after.frames = frames ∧
      ∃ leftBy, last.control = .exit leftBy ∧ after.control = .after rest leftBy

theorem givesBack (before : Context) (body rest : Program) (s : Session) (frames : List Frame) :
    GivesBack before rest frames ⟨s, .run body, .block before rest :: frames⟩ where
  left := exists_leaves body s _ frames
  left_or_inside b hb :=
    (runsOn_or_leaves List.suffix_rfl hb).imp_left fun h => h.suffix List.suffix_rfl
  restored last after h := by
    obtain ⟨leftBy, hcontrol, rfl⟩ := h.leave List.suffix_rfl
    exact ⟨rfl, rfl, leftBy, hcontrol, rfl⟩

/-- A block with valid changes is entered in the context that has them made, and in the end
gives the context from before back, however it is left. A block whose changes are not valid
only raises an error. -/
theorem blocks_restore_default (s : Session) (changes : ContextChanges) (body rest : Program)
    (frames : List Frame) :
    let start : State := ⟨s, .run (.block changes body rest), frames⟩
    (changes.Valid → ∃ c, changes.Turns s.default c ∧
      let entered : State :=
        ⟨{ s with default := c }, .run body, .block s.default rest :: frames⟩
      start.next = some entered ∧ GivesBack s.default rest frames entered) ∧
    (¬changes.Valid → ∃ e, start.next = some ⟨s, .exit (some e), frames⟩) := by
  intro start
  constructor
  · intro hvalid
    obtain ⟨c, hc⟩ := (ContextChanges.valid_iff s.default).mp hvalid
    exact ⟨c, (ContextChanges.replace_eq_ok_iff.mp hc).2, next_block_ok hc,
      givesBack s.default body rest { s with default := c } frames⟩
  · intro hvalid
    cases hc : s.default.replace changes with
    | ok c => exact absurd ((ContextChanges.valid_iff s.default).mpr ⟨c, hc⟩) hvalid
    | error e => exact ⟨e, next_block_error hc⟩

/-- In manual mode, the step mode is set and a block with another strategy is left by an error;
outside the standard context is the default again. A block with a field that contexts do not
have is not entered. -/
theorem standard_context_back_after_nested_error :
    let manual : ContextChanges := { mode := some (.named (.text "manual")) }
    let fraction : ContextChanges := { strategy := some (NumericStrategy.fraction.toCandidate "") }
    let body := request (.writeContext (.mode (.member .step))) none
      (block fraction (request (.malformed .operandType) none .done) .done)
    let unknown : ContextChanges := { unknownField := true }
    (manual.Valid ∧ ∃ last after,
      Leaves [.block {} .done] ⟨{ default := { mode := .manual } }, .run body, [.block {} .done]⟩
          last after ∧
        after.session.default = {}) ∧
      ¬unknown.Valid ∧ ∃ e, next ⟨{}, .run (.block unknown body .done), []⟩ =
        some ⟨{}, .exit (some e), []⟩ := by
  intro manual fraction body unknown
  have hmanual : manual.Valid := by
    refine ⟨rfl, fun x hx => ?_, fun x hx => ?_⟩
    · cases hx
    · cases hx
      exact ⟨.manual, rfl⟩
  have hunknown : ¬unknown.Valid := fun h => Bool.noConfusion h.known
  obtain ⟨⟨strategy, mode⟩, hturns, -, hback⟩ :=
    (blocks_restore_default {} manual body .done []).1 hmanual
  have hstrategy : strategy = .real := hturns.strategy_kept rfl
  have hmode : mode = .manual := by
    have hasked := hturns.mode_given _ rfl
    cases mode with
    | manual => rfl
    | auto | step => exact absurd hasked (by simp [ModeRequest.Asks, SimplifyMode.name])
  subst hstrategy hmode
  obtain ⟨last, after, hleaves⟩ := hback.left
  have hsession := (hback.restored last after hleaves).1
  exact ⟨⟨hmanual, last, after, hleaves, congrArg Session.default hsession⟩, hunknown,
    (blocks_restore_default {} unknown body .done []).2 hunknown⟩

end Program

end QuantityCalculus
