import Mathlib.Data.List.Induction
import QuantityCalculus.Proofs.Context
import QuantityCalculus.Session

/-!
# Writes to the default context

The default context is written whole, or one of its fields at a time. Whether a write is
accepted, and what it carries, depends on its argument alone. After any run of writes, good
and bad ones mixed, each field holds what the last accepted write that carries it has given.

Contexts are valid by their type. Below, a context is also stored as it comes, with a candidate
for a strategy and a request for a mode, and a write of one field puts both fields through all
checks again. A stored context stays valid under such writes, and they fail only on account of
their arguments, exactly if the writes to contexts do.
-/
namespace QuantityCalculus

namespace StrategyCandidate

structure IsComplete (c : StrategyCandidate) : Prop where
  add : c.add.isSome
  sub : c.sub.isSome
  mul : c.mul.isSome
  div : c.div.isSome
  pow : c.pow.isSome
  one : c.one.isSome
  reciprocal : c.reciprocal.isSome

theorem isComplete_iff {c : StrategyCandidate} : c.IsComplete ↔ ∃ s, c.toStrategy? = some s := by
  constructor
  · rintro ⟨hadd, hsub, hmul, hdiv, hpow, hone, hreciprocal⟩
    obtain ⟨add, hadd⟩ := Option.isSome_iff_exists.mp hadd
    obtain ⟨sub, hsub⟩ := Option.isSome_iff_exists.mp hsub
    obtain ⟨mul, hmul⟩ := Option.isSome_iff_exists.mp hmul
    obtain ⟨div, hdiv⟩ := Option.isSome_iff_exists.mp hdiv
    obtain ⟨pow, hpow⟩ := Option.isSome_iff_exists.mp hpow
    obtain ⟨one, hone⟩ := Option.isSome_iff_exists.mp hone
    obtain ⟨reciprocal, hreciprocal⟩ := Option.isSome_iff_exists.mp hreciprocal
    refine ⟨⟨c.description, add, sub, mul, div, pow, one, reciprocal⟩, ?_⟩
    rw [toStrategy?, hadd, hsub, hmul, hdiv, hpow, hone, hreciprocal]
    rfl
  · rintro ⟨s, hs⟩
    simp only [toStrategy?, bind, Option.bind_eq_some_iff] at hs
    obtain ⟨add, hadd, sub, hsub, mul, hmul, div, hdiv, pow, hpow, one, hone, reciprocal,
      hreciprocal, -⟩ := hs
    exact ⟨hadd ▸ rfl, hsub ▸ rfl, hmul ▸ rfl, hdiv ▸ rfl, hpow ▸ rfl, hone ▸ rfl,
      hreciprocal ▸ rfl⟩

end StrategyCandidate

namespace Setting

/-- What a write has to be given in order to be accepted. -/
def Accepted : Setting → Prop
  | strategy candidate => candidate.IsComplete
  | mode request => ∃ mode, request.Asks mode
  | whole fields => fields.Valid
  | foreign _ => False

/-- The write is to leave this strategy; a context without a strategy given has the real one. -/
def CarriesStrategy : Setting → NumericStrategy → Prop
  | strategy candidate, s => candidate.toStrategy? = some s
  | whole fields, s => (fields.strategy = none → s = .real) ∧
      ∀ candidate, fields.strategy = some candidate → candidate.toStrategy? = some s
  | mode _, _ | foreign _, _ => False

/-- The write is to leave this mode; a context without a mode given has the automatic one. -/
def CarriesMode : Setting → SimplifyMode → Prop
  | mode request, m => request.Asks m
  | whole fields, m => (fields.mode = none → m = .auto) ∧
      ∀ request, fields.mode = some request → request.Asks m
  | strategy _, _ | foreign _, _ => False

variable {x : Setting} {before after : Context}

/-- What a write brings about: a field holds what is carried for it, and a field for which
nothing is carried is as before. -/
structure Turns (x : Setting) (before after : Context) : Prop where
  accepted : x.Accepted
  strategy : x.CarriesStrategy after.strategy ∨
    (∀ s, ¬x.CarriesStrategy s) ∧ after.strategy = before.strategy
  mode : x.CarriesMode after.mode ∨ (∀ m, ¬x.CarriesMode m) ∧ after.mode = before.mode

theorem turns_of_apply (h : x.apply before = .ok after) : x.Turns before after := by
  cases x with
  | strategy candidate =>
    obtain ⟨s, hs, h⟩ := bind_eq_ok_iff.mp h
    cases h
    have hcarried := StrategyCandidate.check_eq_ok_iff.mp hs
    exact ⟨StrategyCandidate.isComplete_iff.mpr ⟨s, hcarried⟩, .inl hcarried,
      .inr ⟨fun _ => id, rfl⟩⟩
  | mode request =>
    obtain ⟨m, hm, h⟩ := bind_eq_ok_iff.mp h
    cases h
    have hcarried := ModeRequest.check_eq_ok_iff.mp hm
    exact ⟨⟨m, hcarried⟩, .inr ⟨fun _ => id, rfl⟩, .inl hcarried⟩
  | whole fields =>
    obtain ⟨-, hturns⟩ := ContextChanges.replace_eq_ok_iff.mp h
    exact ⟨(ContextChanges.valid_iff {}).mpr ⟨after, h⟩,
      .inl ⟨hturns.strategy_kept, hturns.strategy_given⟩,
      .inl ⟨hturns.mode_kept, hturns.mode_given⟩⟩
  | foreign v => cases h

/-- Acceptance does not depend on the context that is written over. -/
theorem accepted_iff (before : Context) : x.Accepted ↔ ∃ after, x.apply before = .ok after := by
  refine ⟨fun h => ?_, fun ⟨after, h⟩ => (turns_of_apply h).accepted⟩
  cases x with
  | strategy candidate =>
    obtain ⟨s, hs⟩ := StrategyCandidate.isComplete_iff.mp h
    exact ⟨_, bind_eq_ok_iff.mpr ⟨s, StrategyCandidate.check_eq_ok_iff.mpr hs, rfl⟩⟩
  | mode request =>
    obtain ⟨m, hm⟩ := h
    exact ⟨_, bind_eq_ok_iff.mpr ⟨m, ModeRequest.check_eq_ok_iff.mpr hm, rfl⟩⟩
  | whole fields => exact (ContextChanges.valid_iff {}).mp h
  | foreign v => exact h.elim

end Setting

section

variable {α : Type} {Carries : Setting → α → Prop} {initial a b : α} {settings : List Setting}
  {x : Setting}

/-- The content that the last accepted write to carry one has carried, or the initial one if
there is no such write. -/
def LastCarried (Carries : Setting → α → Prop) (initial : α) (settings : List Setting) (a : α) :
    Prop :=
  (∃ earlier x later, settings = earlier ++ x :: later ∧ x.Accepted ∧ Carries x a ∧
    ∀ y ∈ later, y.Accepted → ∀ b, ¬Carries y b) ∨
  (∀ y ∈ settings, y.Accepted → ∀ b, ¬Carries y b) ∧ a = initial

namespace LastCarried

theorem nil : LastCarried Carries initial [] initial := .inr ⟨List.forall_mem_nil _, rfl⟩

theorem keep (h : LastCarried Carries initial settings a)
    (hx : x.Accepted → ∀ b, ¬Carries x b) :
    LastCarried Carries initial (settings ++ [x]) a := by
  have hlater : ∀ later : List Setting, (∀ y ∈ later, y.Accepted → ∀ b, ¬Carries y b) →
      ∀ y ∈ later ++ [x], y.Accepted → ∀ b, ¬Carries y b := by
    intro later h
    exact List.forall_mem_append.mpr ⟨h, List.forall_mem_singleton.mpr hx⟩
  rcases h with ⟨earlier, y, later, rfl, hy, hcarries, h⟩ | ⟨h, rfl⟩
  · exact .inl ⟨earlier, y, later ++ [x], by simp, hy, hcarries, hlater later h⟩
  · exact .inr ⟨hlater settings h, rfl⟩

theorem accepted (h : LastCarried Carries initial settings a) (hx : x.Accepted)
    (hturns : Carries x b ∨ (∀ c, ¬Carries x c) ∧ b = a) :
    LastCarried Carries initial (settings ++ [x]) b := by
  rcases hturns with hcarried | ⟨hnone, rfl⟩
  · exact .inl ⟨settings, x, [], rfl, hx, hcarried, List.forall_mem_nil _⟩
  · exact h.keep fun _ => hnone

end LastCarried

end

/-- The script of a run of writes; errors are answered, and the run goes on. -/
def Script.writes : List Setting → Script
  | [] => .done
  | x :: rest => .step (.writeContext x) none (writes rest)

namespace Session

def defaultAfter (s : Session) (settings : List Setting) : Context :=
  (run false (.writes settings) s).session.default

variable {s : Session} {settings more : List Setting} {x : Setting} {c : Context} {e : Error}

theorem defaultAfter_cons_ok (h : x.apply s.default = .ok c) :
    s.defaultAfter (x :: more) = { s with default := c }.defaultAfter more := by
  have hanswer : s.answer (.writeContext x) = .ok (.context c) := by
    rw [answer, h]
    rfl
  rw [defaultAfter, Script.writes, run, hanswer]
  rfl

theorem defaultAfter_cons_error (h : x.apply s.default = .error e) :
    s.defaultAfter (x :: more) = s.defaultAfter more := by
  have hanswer : s.answer (.writeContext x) = .error e := by
    rw [answer, h]
    rfl
  rw [defaultAfter, Script.writes, run, hanswer]
  rfl

theorem defaultAfter_append :
    s.defaultAfter (settings ++ more) =
      { s with default := s.defaultAfter settings }.defaultAfter more := by
  induction settings generalizing s with
  | nil => rfl
  | cons x rest ih =>
    cases hx : x.apply s.default with
    | ok c => rw [List.cons_append, defaultAfter_cons_ok hx, defaultAfter_cons_ok hx, ih]
    | error e => rw [List.cons_append, defaultAfter_cons_error hx, defaultAfter_cons_error hx, ih]

theorem defaultAfter_concat :
    s.defaultAfter (settings ++ [x]) =
      (x.apply (s.defaultAfter settings)).toOption.getD (s.defaultAfter settings) := by
  rw [defaultAfter_append]
  cases hx : x.apply (s.defaultAfter settings) with
  | ok c => exact defaultAfter_cons_ok hx
  | error e => exact defaultAfter_cons_error hx

theorem defaultAfter_refused (hx : ¬x.Accepted) :
    s.defaultAfter (settings ++ [x]) = s.defaultAfter settings := by
  rw [defaultAfter_concat]
  cases happly : x.apply (s.defaultAfter settings) with
  | ok c => exact absurd (Setting.turns_of_apply happly).accepted hx
  | error e => rfl

theorem lastCarried_default (s : Session) (settings : List Setting) :
    LastCarried Setting.CarriesStrategy s.default.strategy settings
        (s.defaultAfter settings).strategy ∧
      LastCarried Setting.CarriesMode s.default.mode settings (s.defaultAfter settings).mode := by
  -- from the end of the run: only the last write is looked at
  induction settings using List.reverseRecOn with
  | nil => exact ⟨.nil, .nil⟩
  | append_singleton settings x ih =>
    obtain ⟨ihstrategy, ihmode⟩ := ih
    by_cases hx : x.Accepted
    · obtain ⟨c, hc⟩ := (Setting.accepted_iff (s.defaultAfter settings)).mp hx
      have hafter : s.defaultAfter (settings ++ [x]) = c := by
        rw [defaultAfter_concat, hc]
        rfl
      obtain ⟨-, hstrategy, hmode⟩ := Setting.turns_of_apply hc
      rw [hafter]
      exact ⟨ihstrategy.accepted hx hstrategy, ihmode.accepted hx hmode⟩
    · rw [defaultAfter_refused hx]
      exact ⟨ihstrategy.keep fun h => absurd h hx, ihmode.keep fun h => absurd h hx⟩

end Session

/-- A context whose fields have any contents. -/
structure StoredContext where
  strategy : StrategyCandidate
  mode : ModeRequest

namespace StoredContext

def standard : StoredContext := ⟨NumericStrategy.real.toCandidate "RealStrategy", .member .auto⟩

/-- Contents are stored if they pass the checks, and the name of a mode as the mode. -/
def construct (strategy : StrategyCandidate) (mode : ModeRequest) : Except Error StoredContext := do
  let _ ← strategy.check
  .ok ⟨strategy, .member (← mode.check)⟩

/-- All fields are checked, also those that are not changed. -/
def replace (c : StoredContext) (changes : ContextChanges) : Except Error StoredContext :=
  if changes.unknownField then .error .operandType
  else construct (changes.strategy.getD c.strategy) (changes.mode.getD c.mode)

def write (c : StoredContext) : Setting → Except Error StoredContext
  | .strategy candidate => do
    let _ ← candidate.check
    c.replace { strategy := some candidate }
  | .mode request => do c.replace { mode := some (.member (← request.check)) }
  | .whole fields => standard.replace fields
  | .foreign v => .error (.notContext v.typeName)

/-- The stored context after a run of writes; one that fails is passed over. -/
def writeAll (c : StoredContext) (settings : List Setting) : StoredContext :=
  settings.foldl (fun c x => (c.write x).toOption.getD c) c

structure Valid (c : StoredContext) : Prop where
  strategy : c.strategy.IsComplete
  mode : ∃ m, c.mode = .member m

/-- The stored context has the contents of the context. -/
structure Holds (c : StoredContext) (context : Context) : Prop where
  strategy : c.strategy.toStrategy? = some context.strategy
  mode : c.mode = .member context.mode

variable {c : StoredContext} {context : Context} {x : Setting} {settings : List Setting}

theorem Holds.valid (h : c.Holds context) : c.Valid :=
  ⟨StrategyCandidate.isComplete_iff.mpr ⟨_, h.strategy⟩, _, h.mode⟩

theorem standard_holds : standard.Holds {} := ⟨rfl, rfl⟩

theorem construct_corresponds (strategy : StrategyCandidate) (mode : ModeRequest) :
    Corresponds Holds (construct strategy mode)
      (do .ok ⟨← strategy.check, ← mode.check⟩) := by
  cases hstrategy : strategy.check with
  | error e => rw [construct, hstrategy]; exact .error e
  | ok s =>
    rw [construct, hstrategy]
    cases mode.check with
    | error e => exact .error e
    | ok m => exact .ok ⟨StrategyCandidate.check_eq_ok_iff.mp hstrategy, rfl⟩

theorem replace_corresponds (h : c.Holds context) (changes : ContextChanges) :
    Corresponds Holds (c.replace changes) (context.replace changes) := by
  have hstrategy : (changes.strategy.getD c.strategy).check =
      changes.strategy.elim (.ok context.strategy) StrategyCandidate.check := by
    cases changes.strategy with
    | none => exact StrategyCandidate.check_eq_ok_iff.mpr h.strategy
    | some candidate => rfl
  have hmode : (changes.mode.getD c.mode).check =
      changes.mode.elim (.ok context.mode) ModeRequest.check := by
    cases changes.mode with
    | none => exact congrArg ModeRequest.check h.mode
    | some request => rfl
  unfold replace Context.replace
  split
  · exact .error Error.operandType
  · rw [← hstrategy, ← hmode]
    exact construct_corresponds _ _

theorem write_corresponds (h : c.Holds context) (x : Setting) :
    Corresponds Holds (c.write x) (x.apply context) := by
  cases x with
  | strategy candidate =>
    have hreplace := replace_corresponds h { strategy := some candidate }
    rw [write, Setting.apply]
    cases hcheck : candidate.check with
    | error e => exact .error e
    | ok s =>
      have hcontext : context.replace { strategy := some candidate } =
          .ok { context with strategy := s } := by
        simp [Context.replace, hcheck, bind, Except.bind]
      rw [hcontext] at hreplace
      exact hreplace
  | mode request =>
    rw [write, Setting.apply]
    cases request.check with
    | error e => exact .error e
    | ok m => exact replace_corresponds h { mode := some (.member m) }
  | whole fields => exact replace_corresponds standard_holds fields
  | foreign v => exact .error _

/-- However it is written, the stored context has the contents of the default context. -/
theorem writeAll_holds {s : Session} (h : c.Holds s.default) (settings : List Setting) :
    (c.writeAll settings).Holds (s.defaultAfter settings) := by
  induction settings using List.reverseRecOn with
  | nil => exact h
  | append_singleton settings x ih =>
    rw [writeAll, List.foldl_concat, ← writeAll, Session.defaultAfter_concat]
    exact (write_corresponds ih x).getD ih

theorem writeAll_refused (hc : (c.writeAll settings).Holds context) (hx : ¬x.Accepted) :
    c.writeAll (settings ++ [x]) = c.writeAll settings := by
  rw [writeAll, List.foldl_concat, ← writeAll]
  cases hwrite : (c.writeAll settings).write x with
  | error e => rfl
  | ok c' =>
    obtain ⟨after, hafter⟩ := (write_corresponds hc x).exists_ok_iff.mp ⟨c', hwrite⟩
    exact absurd ((Setting.accepted_iff context).mpr ⟨after, hafter⟩) hx

end StoredContext

namespace Session

/-- After every run of writes each field of the default context holds what the last accepted
write has carried for it. What comes next either is accepted, on account of its argument, or
changes nothing. Stored as it comes, the default context stays valid all along. -/
theorem default_holds_last_accepted_writes (s : Session) (c : StoredContext)
    (hc : c.Holds s.default) (settings : List Setting) :
    LastCarried Setting.CarriesStrategy s.default.strategy settings
        (s.defaultAfter settings).strategy ∧
      LastCarried Setting.CarriesMode s.default.mode settings (s.defaultAfter settings).mode ∧
      (∀ x : Setting,
        (x.Accepted ↔ ∃ after, x.apply (s.defaultAfter settings) = .ok after) ∧
        (¬x.Accepted → s.defaultAfter (settings ++ [x]) = s.defaultAfter settings ∧
          c.writeAll (settings ++ [x]) = c.writeAll settings)) ∧
      (c.writeAll settings).Holds (s.defaultAfter settings) ∧ (c.writeAll settings).Valid := by
  obtain ⟨hstrategy, hmode⟩ := s.lastCarried_default settings
  have hholds := StoredContext.writeAll_holds hc settings
  refine ⟨hstrategy, hmode, fun x => ⟨Setting.accepted_iff _, fun hx => ⟨?_, ?_⟩⟩, hholds,
    hholds.valid⟩
  · exact defaultAfter_refused hx
  · exact StoredContext.writeAll_refused hholds hx

theorem fraction_in_step_mode_after_mixed_writes :
    let settings : List Setting := [.strategy (NumericStrategy.fraction.toCandidate ""),
      .mode (.named (.text "step")), .strategy Value.absent.toCandidate, .mode (.named .absent),
      .foreign .absent]
    LastCarried Setting.CarriesStrategy .real settings .fraction ∧
      LastCarried Setting.CarriesMode .auto settings .step ∧
      StoredContext.standard.Holds {} ∧ (StoredContext.standard.writeAll settings).Valid := by
  intro settings
  obtain ⟨hstrategy, hmode, -, -, hvalid⟩ :=
    default_holds_last_accepted_writes {} .standard StoredContext.standard_holds settings
  exact ⟨hstrategy, hmode, StoredContext.standard_holds, hvalid⟩

end Session

end QuantityCalculus
