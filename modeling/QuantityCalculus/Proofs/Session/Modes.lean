import QuantityCalculus.Proofs.Context
import QuantityCalculus.Proofs.Session.Program

/-!
# Simplify modes have no effect

A mode is checked, stored and shown, and nothing else depends on it. As long as all modes that
a program gives are modes, the program and what is left of it without them take the same steps,
and every request that does not ask for a context has the same answer in both. So programs that
differ in their modes alone run in lockstep, whatever contexts they write or open blocks with.
-/
namespace QuantityCalculus

def ContextChanges.ModeValid (changes : ContextChanges) : Prop :=
  ∀ request, changes.mode = some request → ∃ mode, request.Asks mode

def ContextChanges.withoutMode (changes : ContextChanges) : ContextChanges :=
  { changes with mode := none }

def Context.withoutMode (c : Context) : Context := { c with mode := .auto }

namespace Setting

def ModeValid : Setting → Prop
  | mode request => ∃ mode, request.Asks mode
  | whole fields => fields.ModeValid
  | strategy _ | foreign _ => True

def withoutMode : Setting → Setting
  | mode _ => mode (.member .auto)
  | whole fields => whole fields.withoutMode
  | x => x

end Setting

namespace Request

def ModesValid : Request → Prop
  | combine _ _ _ context | power _ _ context =>
    ∀ fields, context = .ok (some fields) → fields.ModeValid
  | writeContext setting => setting.ModeValid
  | replaceContext changes => changes.ModeValid
  | _ => True

def withoutModes : Request → Request
  | combine op a b context => combine op a b (context.map (Option.map ContextChanges.withoutMode))
  | power a n context => power a n (context.map (Option.map ContextChanges.withoutMode))
  | writeContext setting => writeContext setting.withoutMode
  | replaceContext changes => replaceContext changes.withoutMode
  | r => r

/-- Requests other than for contexts: all operations on quantities. -/
def isCalculation : Request → Bool
  | readContext | writeContext _ | replaceContext _ => false
  | _ => true

end Request

def Answer.withoutModes : Answer → Answer
  | context c => context c.withoutMode
  | replaced new default => replaced new.withoutMode default.withoutMode
  | a => a

def Session.withoutMode (s : Session) : Session := { s with default := s.default.withoutMode }

section

variable {c : Context} {changes : ContextChanges} {x : Setting}

theorem Context.replace_withoutMode (h : changes.ModeValid) :
    c.withoutMode.replace changes.withoutMode = (c.replace changes).map withoutMode := by
  obtain ⟨mode, hmode⟩ : ∃ m, changes.mode.elim (.ok c.mode) ModeRequest.check = .ok m :=
    exists_elim_check fun request hrequest =>
      (h request hrequest).imp fun _ => ModeRequest.check_eq_ok_iff.mpr
  unfold Context.replace
  rw [hmode]
  change (if changes.unknownField then _ else _) = _
  split
  · rfl
  · change (changes.strategy.elim (.ok c.strategy) StrategyCandidate.check >>= _) = _
    cases changes.strategy.elim (.ok c.strategy) StrategyCandidate.check <;> rfl

theorem Context.build_withoutMode (h : changes.ModeValid) :
    build changes.withoutMode = (build changes).map withoutMode :=
  replace_withoutMode (c := {}) h

theorem Setting.apply_withoutMode (h : x.ModeValid) :
    x.withoutMode.apply c.withoutMode = (x.apply c).map Context.withoutMode := by
  cases x with
  | strategy candidate =>
    change candidate.check >>= _ = (candidate.check >>= _).map _
    cases candidate.check <;> rfl
  | mode request =>
    obtain ⟨m, hm⟩ := h
    rw [withoutMode, apply, apply, ModeRequest.check_eq_ok_iff.mpr hm]
    rfl
  | whole fields => exact Context.build_withoutMode h
  | foreign v => rfl

end

namespace Session

variable {s : Session} {r : Request}

theorem strategyFor_withoutMode {context : Option ContextChanges}
    (h : ∀ fields, context = some fields → fields.ModeValid) :
    s.withoutMode.strategyFor (context.map ContextChanges.withoutMode) = s.strategyFor context := by
  cases context with
  | none => rfl
  | some fields =>
    change (Context.build fields.withoutMode >>= _) = _
    rw [Context.build_withoutMode (h fields rfl), strategyFor]
    cases Context.build fields <;> rfl

theorem bind_strategyFor_withoutMode {α : Type} {context : Offer (Option ContextChanges)}
    (h : ∀ fields, context = .ok (some fields) → fields.ModeValid)
    (f : NumericStrategy → Except Error α) :
    (context.map (Option.map ContextChanges.withoutMode) >>= fun fields =>
        s.withoutMode.strategyFor fields >>= f) =
      context >>= fun fields => s.strategyFor fields >>= f := by
  cases context with
  | error e => rfl
  | ok context =>
    have hsame := strategyFor_withoutMode (s := s) fun fields hfields =>
      h fields (congrArg Except.ok hfields)
    exact congrArg (· >>= f) hsame

theorem result_map_withoutModes (q : Except Error Quantity) :
    (result q).map Answer.withoutModes = result q := by
  cases q <;> rfl

theorem answer_map_withoutModes (h : r.isCalculation) :
    (s.answer r).map Answer.withoutModes = s.answer r := by
  cases r with
  | readContext | writeContext setting | replaceContext changes => cases h
  | make value physical algebraic symbolic => exact result_map_withoutModes _
  | fromSpec ns value spec => exact result_map_withoutModes _
  | dimensionless value => rfl
  | combine op a b context => simp only [answer, map_bind, result_map_withoutModes]
  | power a n context => simp only [answer, map_bind, result_map_withoutModes]
  | operate op a b => simp only [answer, map_bind]; rfl
  | powerModulo a n modulus =>
    simp only [answer, map_bind]
    refine bind_congr fun base => bind_congr fun exponent => bind_congr fun m => ?_
    cases m <;> (simp only [map_bind]; rfl)
  | convert a target => simp only [answer, map_bind]; rfl
  | render a word => simp only [answer, map_bind]; rfl
  | renderAll a => simp only [answer, map_bind]; rfl
  | isUnitless a => simp only [answer, map_bind]; rfl
  | compare a b => simp only [answer, map_bind]; rfl
  | malformed e => rfl

theorem answer_withoutModes (h : r.ModesValid) :
    s.withoutMode.answer r.withoutModes = (s.answer r).map Answer.withoutModes := by
  cases r with
  | readContext => rfl
  | writeContext x =>
    change x.withoutMode.apply s.default.withoutMode >>= _ = (x.apply s.default >>= _).map _
    rw [Setting.apply_withoutMode h]
    cases x.apply s.default <;> rfl
  | replaceContext changes =>
    change s.default.withoutMode.replace changes.withoutMode >>= _ =
      (s.default.replace changes >>= _).map _
    rw [Context.replace_withoutMode h]
    cases s.default.replace changes <;> rfl
  | combine op a b context =>
    -- of a context, operations on quantities look at the strategy only
    rw [answer_map_withoutModes rfl]
    change (s.lookUp a >>= fun left => s.lookUp b >>= fun right => _) = _
    simp only [bind_strategyFor_withoutMode h]
    rfl
  | power a n context =>
    rw [answer_map_withoutModes rfl]
    change (s.lookUp a >>= fun base => _) = _
    simp only [bind_strategyFor_withoutMode h]
    rfl
  | _ => exact (answer_map_withoutModes rfl).symm

theorem record_withoutModes (name : Option String) (a : Answer) :
    (s.record r name a).withoutMode = s.withoutMode.record r.withoutModes name a.withoutModes := by
  cases r <;> cases name <;> cases a <;> rfl

end Session

namespace Program

def ModesValid : Program → Prop
  | done => True
  | request r _ rest => r.ModesValid ∧ rest.ModesValid
  | block changes body rest => changes.ModeValid ∧ body.ModesValid ∧ rest.ModesValid
  | guard body rest => body.ModesValid ∧ rest.ModesValid

def withoutModes : Program → Program
  | done => done
  | request r name rest => request r.withoutModes name rest.withoutModes
  | block changes body rest => block changes.withoutMode body.withoutModes rest.withoutModes
  | guard body rest => guard body.withoutModes rest.withoutModes

def Frame.ModesValid : Frame → Prop
  | block _ rest | guard rest => rest.ModesValid

def Frame.withoutModes : Frame → Frame
  | block before rest => block before.withoutMode rest.withoutModes
  | guard rest => guard rest.withoutModes

def Control.ModesValid : Control → Prop
  | run p => p.ModesValid
  | exit _ => True

def Control.withoutModes : Control → Control
  | run p => run p.withoutModes
  | exit leftBy => exit leftBy

namespace State

/-- All modes that are still to be given are modes. -/
structure ModesValid (a : State) : Prop where
  control : a.control.ModesValid
  frames : ∀ f ∈ a.frames, f.ModesValid

def withoutModes (a : State) : State :=
  ⟨a.session.withoutMode, a.control.withoutModes, a.frames.map Frame.withoutModes⟩

variable {a b : State}

theorem ModesValid.leave {f : Frame} {s : Session} {leftBy : Option Error} {frames : List Frame}
    (hf : f.ModesValid) (hframes : ∀ f ∈ frames, f.ModesValid) :
    (f.leave s leftBy frames).ModesValid := by
  cases f with
  | guard rest => exact ⟨hf, hframes⟩
  | block before rest =>
    cases leftBy with
    | none => exact ⟨hf, hframes⟩
    | some e => exact ⟨trivial, hframes⟩

theorem ModesValid.step (h : a.ModesValid) (hstep : Step a b) : b.ModesValid := by
  obtain ⟨hcontrol, hframes⟩ := h
  cases hstep with
  | leave s leftBy f frames =>
    obtain ⟨hf, hframes⟩ := List.forall_mem_cons.mp hframes
    exact .leave hf hframes
  | done | failed | refused => exact ⟨trivial, hframes⟩
  | answered => exact ⟨hcontrol.2, hframes⟩
  | entered => exact ⟨hcontrol.2.1, List.forall_mem_cons.mpr ⟨hcontrol.2.2, hframes⟩⟩
  | guarded => exact ⟨hcontrol.1, List.forall_mem_cons.mpr ⟨hcontrol.2, hframes⟩⟩

theorem leave_withoutModes (f : Frame) (s : Session) (leftBy : Option Error)
    (frames : List Frame) :
    f.withoutModes.leave s.withoutMode leftBy (frames.map Frame.withoutModes) =
      (f.leave s leftBy frames).withoutModes := by
  cases f with
  | guard rest => rfl
  | block before rest => cases leftBy <;> rfl

/-- Without its modes, a state takes the same step. -/
theorem Step.withoutModes (h : a.ModesValid) (hstep : Step a b) :
    Step a.withoutModes b.withoutModes := by
  obtain ⟨hcontrol, -⟩ := h
  cases hstep with
  | leave s leftBy f frames =>
    rw [← leave_withoutModes]
    exact .leave _ _ _ _
  | done s frames => exact .done _ _
  | guarded s body rest frames => exact .guarded _ _ _ _
  | @answered s r a name rest frames hanswer =>
    have hsame := (Session.answer_withoutModes hcontrol.1).trans (congrArg _ hanswer)
    have hstep := Step.answered name rest.withoutModes (frames.map Frame.withoutModes) hsame
    rw [← Session.record_withoutModes] at hstep
    exact hstep
  | failed name rest frames hanswer =>
    exact .failed name _ _ ((Session.answer_withoutModes hcontrol.1).trans (congrArg _ hanswer))
  | entered body rest frames hentered =>
    exact .entered _ _ _ ((Context.replace_withoutMode hcontrol.1).trans (congrArg _ hentered))
  | refused body rest frames hentered =>
    exact .refused _ _ _ ((Context.replace_withoutMode hcontrol.1).trans (congrArg _ hentered))

theorem next_withoutModes (h : a.ModesValid) :
    a.withoutModes.next = a.next.map withoutModes := by
  rcases exists_step a with ⟨s, leftBy, rfl⟩ | ⟨b, hstep⟩
  · rfl
  · rw [hstep.next]
    exact (hstep.withoutModes h).next

def calculation? (a : State) : Option (Except Error Answer) :=
  match a.control with
  | .run (.request r _ _) => if r.isCalculation then some (a.session.answer r) else none
  | _ => none

theorem calculation?_withoutModes (h : a.ModesValid) :
    a.withoutModes.calculation? = a.calculation? := by
  obtain ⟨s, control, frames⟩ := a
  have hcontrol := h.control
  cases control with
  | exit leftBy => rfl
  | run p =>
    cases p with
    | done | block changes body rest | guard body rest => rfl
    | request r name rest =>
      have hkind : r.withoutModes.isCalculation = r.isCalculation := by cases r <;> rfl
      change (if r.withoutModes.isCalculation then some _ else none) =
        if r.isCalculation then some _ else none
      rw [hkind]
      split
      · rename_i hcalculation
        rw [← Session.answer_map_withoutModes hcalculation]
        exact congrArg some (Session.answer_withoutModes hcontrol.1)
      · rfl

/-- The same up to modes, all of which are valid. -/
structure SameButModes (a a' : State) : Prop where
  left : a.ModesValid
  right : a'.ModesValid
  same : a.withoutModes = a'.withoutModes

namespace SameButModes

variable {a' : State}

theorem calculation?_eq (h : SameButModes a a') : a.calculation? = a'.calculation? := by
  rw [← calculation?_withoutModes h.left, h.same, calculation?_withoutModes h.right]

theorem next (h : SameButModes a a') : Option.Rel SameButModes a.next a'.next := by
  have hsame : a.next.map withoutModes = a'.next.map withoutModes := by
    rw [← next_withoutModes h.left, h.same, next_withoutModes h.right]
  cases hb : a.next with
  | none =>
    rw [hb] at hsame
    rw [Option.map_eq_none_iff.mp hsame.symm]
    exact .none
  | some b =>
    rw [hb] at hsame
    obtain ⟨b', hb', hwithout⟩ := Option.map_eq_some_iff.mp hsame.symm
    rw [hb']
    exact .some ⟨h.left.step (step_of_next hb), h.right.step (step_of_next hb'), hwithout.symm⟩

/-- Both go on for the same number of steps, and after each of them are the same up to modes. -/
theorem after (h : SameButModes a a') (n : Nat) :
    Option.Rel SameButModes (a.after n) (a'.after n) := by
  induction n with
  | zero => exact .some h
  | succ n ih =>
    rw [State.after, State.after]
    generalize a.after n = b, a'.after n = b' at ih
    cases ih with
    | none => exact .none
    | some hb => exact hb.next

end SameButModes

end State

end Program

end QuantityCalculus
