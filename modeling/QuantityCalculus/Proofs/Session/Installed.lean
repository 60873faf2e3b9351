import QuantityCalculus.Proofs.Session.Program
import QuantityCalculus.Proofs.Session.Writes

/-!
# The strategy last installed

Along a run of a program a ledger is kept of the strategy that was installed last, from the
requests and blocks of the program alone. A write installs the strategy that it carries, if it is
accepted and carries one. A block installs the strategy that is given for it, and when it is left,
however that may be, the strategy from outside is installed again. The ledger always shows the
strategy of the default context.
-/
namespace QuantityCalculus

/-- Whether changes can be made to one context is whether they can be made to any. -/
theorem build_iff_replace {changes : ContextChanges} (before : Context) :
    (∃ c, Context.build changes = .ok c) ↔ ∃ c, before.replace changes = .ok c :=
  (ContextChanges.valid_iff {}).symm.trans (ContextChanges.valid_iff before)

def ContextChanges.strategy? (changes : ContextChanges) : Option NumericStrategy :=
  changes.strategy.bind StrategyCandidate.toStrategy?

theorem ContextChanges.strategy_of_replace {changes : ContextChanges} {before after : Context}
    (h : before.replace changes = .ok after) :
    after.strategy = changes.strategy?.getD before.strategy := by
  obtain ⟨-, hturns⟩ := replace_eq_ok_iff.mp h
  cases hgiven : changes.strategy with
  | none =>
    rw [strategy?, hgiven, hturns.strategy_kept hgiven]
    rfl
  | some candidate =>
    rw [strategy?, hgiven, Option.bind_some, hturns.strategy_given _ hgiven]
    rfl

def Setting.installs : Setting → Option NumericStrategy
  | strategy candidate => candidate.toStrategy?
  | whole fields => (Context.build fields).toOption.map Context.strategy
  | mode _ | foreign _ => none

/-- The strategy that a request installs; only writes do. -/
def Request.installs : Request → Option NumericStrategy
  | writeContext x => x.installs
  | _ => none

namespace Setting

variable {x : Setting} {before after : Context} {e : Error}

theorem CarriesStrategy.unique {s t : NumericStrategy} (hs : x.CarriesStrategy s)
    (ht : x.CarriesStrategy t) : s = t := by
  cases x with
  | strategy candidate => exact Option.some.inj (hs.symm.trans ht)
  | mode request => exact hs.elim
  | foreign v => exact hs.elim
  | whole fields =>
    cases hgiven : fields.strategy with
    | none => rw [hs.1 hgiven, ht.1 hgiven]
    | some candidate => exact Option.some.inj ((hs.2 _ hgiven).symm.trans (ht.2 _ hgiven))

theorem installs_eq_some_iff {s : NumericStrategy} :
    x.installs = some s ↔ x.Accepted ∧ x.CarriesStrategy s := by
  cases x with
  | strategy candidate =>
    exact ⟨fun h => ⟨StrategyCandidate.isComplete_iff.mpr ⟨s, h⟩, h⟩, And.right⟩
  | mode request => exact ⟨fun h => (nomatch h), fun h => h.2.elim⟩
  | foreign v => exact ⟨fun h => (nomatch h), fun h => h.1.elim⟩
  | whole fields =>
    rw [installs]
    cases hbuild : Context.build fields with
    | error e =>
      refine ⟨fun h => (nomatch h), fun h => ?_⟩
      obtain ⟨c, hc⟩ := (accepted_iff {}).mp h.1
      cases hbuild.symm.trans hc
    | ok c =>
      obtain ⟨-, hturns⟩ := ContextChanges.replace_eq_ok_iff.mp hbuild
      have hcarried : (whole fields).CarriesStrategy c.strategy :=
        ⟨hturns.strategy_kept, hturns.strategy_given⟩
      constructor
      · intro h
        cases h
        exact ⟨(ContextChanges.valid_iff {}).mpr ⟨c, hbuild⟩, hcarried⟩
      · rintro ⟨-, hs⟩
        exact congrArg some (hcarried.unique hs)

theorem installs_of_apply (h : x.apply before = .ok after) :
    after.strategy = x.installs.getD before.strategy := by
  obtain ⟨haccepted, hcarried | ⟨hnone, hkept⟩, -⟩ := turns_of_apply h
  · rw [installs_eq_some_iff.mpr ⟨haccepted, hcarried⟩]
    rfl
  · have hinstalls : x.installs = none :=
      Option.eq_none_iff_forall_ne_some.mpr fun s hs => hnone s (installs_eq_some_iff.mp hs).2
    rw [hinstalls, hkept]
    rfl

theorem installs_of_error (h : x.apply before = .error e) : x.installs = none := by
  refine Option.eq_none_iff_forall_ne_some.mpr fun s hs => ?_
  obtain ⟨after, hafter⟩ := (accepted_iff before).mp (installs_eq_some_iff.mp hs).1
  cases h.symm.trans hafter

end Setting

namespace Session

variable {s : Session} {r : Request} {name : Option String} {a : Answer} {e : Error}

theorem record_default (h : ∀ x, r ≠ .writeContext x) : (s.record r name a).default = s.default := by
  cases r with
  | writeContext x => exact absurd rfl (h x)
  | _ => cases name <;> cases a <;> rfl

theorem installs_of_answer (h : s.answer r = .ok a) :
    (s.record r name a).default.strategy = r.installs.getD s.default.strategy := by
  by_cases hr : ∃ x, r = .writeContext x
  · obtain ⟨x, rfl⟩ := hr
    obtain ⟨c, hc, h⟩ := bind_eq_ok_iff.mp h
    cases h
    have hafter := Setting.installs_of_apply hc
    cases name <;> exact hafter
  · rw [record_default fun x hx => hr ⟨x, hx⟩]
    cases r with
    | writeContext x => exact absurd ⟨x, rfl⟩ hr
    | _ => rfl

theorem installs_of_refusal (h : s.answer r = .error e) : r.installs = none := by
  cases r with
  | writeContext x => exact Setting.installs_of_error (bind_ok_eq_error_iff.mp h)
  | _ => rfl

end Session

namespace Program

/-- The strategy last installed, and for each open block the one that was so outside. -/
structure Ledger where
  installed : NumericStrategy
  outside : List NumericStrategy

namespace Ledger

def install (ℓ : Ledger) (s : Option NumericStrategy) : Ledger :=
  { ℓ with installed := s.getD ℓ.installed }

def enter (ℓ : Ledger) (given : Option NumericStrategy) : Ledger :=
  ⟨given.getD ℓ.installed, ℓ.installed :: ℓ.outside⟩

def leave (ℓ : Ledger) : Ledger := ⟨ℓ.outside.headD ℓ.installed, ℓ.outside.tail⟩

def next (ℓ : Ledger) (a : State) : Ledger :=
  match a.control, a.frames with
  | .exit _, .block _ _ :: _ => ℓ.leave
  | .run (.request r _ _), _ => ℓ.install r.installs
  | .run (.block changes _ _), _ =>
    match Context.build changes with
    | .ok _ => ℓ.enter changes.strategy?
    | .error _ => ℓ
  | _, _ => ℓ

end Ledger

/-- The strategy of the context that a frame gives back. -/
def Frame.outside? : Frame → Option NumericStrategy
  | block before _ => some before.strategy
  | guard _ => none

/-- The ledger shows the strategies of the default context and of the contexts kept. -/
structure Ledger.Shows (ℓ : Ledger) (a : State) : Prop where
  installed : ℓ.installed = a.session.default.strategy
  outside : ℓ.outside = a.frames.filterMap Frame.outside?

namespace Ledger

variable {ℓ : Ledger} {a b : State}

theorem next_block (s : Session) (changes : ContextChanges) (body rest : Program)
    (frames : List Frame) :
    ℓ.next ⟨s, .run (.block changes body rest), frames⟩ =
      match Context.build changes with
      | .ok _ => ℓ.enter changes.strategy?
      | .error _ => ℓ := by
  cases frames <;> rfl

theorem Shows.step (h : ℓ.Shows a) (hstep : State.Step a b) : (ℓ.next a).Shows b := by
  obtain ⟨hinstalled, houtside⟩ := h
  cases hstep with
  | done | guarded => exact ⟨hinstalled, houtside⟩
  | leave s leftBy f frames =>
    cases f with
    | guard rest => exact ⟨hinstalled, houtside⟩
    | block before rest =>
      -- what was installed outside is what the context given back has
      change ℓ.outside = before.strategy :: frames.filterMap Frame.outside? at houtside
      refine ⟨?_, ?_⟩
      · change ℓ.outside.headD ℓ.installed = before.strategy
        rw [houtside]
        rfl
      · change ℓ.outside.tail = frames.filterMap Frame.outside?
        rw [houtside]
        rfl
  | @answered s r answer name rest frames hanswer =>
    refine ⟨?_, houtside⟩
    change r.installs.getD ℓ.installed = _
    rw [hinstalled, Session.installs_of_answer hanswer]
  | @failed s r e name rest frames hanswer =>
    refine ⟨?_, houtside⟩
    change r.installs.getD ℓ.installed = _
    rw [Session.installs_of_refusal hanswer]
    exact hinstalled
  | @entered s changes c body rest frames hentered =>
    -- the ledger asks whether the changes make a context, the step whether they change this one
    obtain ⟨standard, hbuild⟩ := (build_iff_replace s.default).mpr ⟨c, hentered⟩
    rw [next_block, hbuild]
    refine ⟨?_, ?_⟩
    · change changes.strategy?.getD ℓ.installed = c.strategy
      rw [hinstalled, ContextChanges.strategy_of_replace hentered]
    · change ℓ.installed :: ℓ.outside = s.default.strategy :: frames.filterMap Frame.outside?
      rw [hinstalled, houtside]
  | @refused s changes e body rest frames hentered =>
    cases hbuild : Context.build changes with
    | ok standard =>
      obtain ⟨c, hc⟩ := (build_iff_replace s.default).mp ⟨standard, hbuild⟩
      cases hentered.symm.trans hc
    | error e' =>
      rw [next_block, hbuild]
      exact ⟨hinstalled, houtside⟩

end Ledger

/-- The ledger of a program after some number of steps. At first the strategy that the session
has counts as installed. -/
def ledger (s : Session) (p : Program) : Nat → Ledger
  | 0 => ⟨s.default.strategy, []⟩
  | n + 1 => (State.after ⟨s, .run p, []⟩ n).elim (ledger s p n) (ledger s p n).next

theorem ledger_shows {s : Session} {p : Program} {n : Nat} {a : State}
    (h : State.after ⟨s, .run p, []⟩ n = some a) : (ledger s p n).Shows a := by
  induction n generalizing a with
  | zero =>
    cases h
    exact ⟨rfl, rfl⟩
  | succ n ih =>
    obtain ⟨b, hb, hnext⟩ := Option.bind_eq_some_iff.mp h
    rw [ledger, hb]
    exact (ih hb).step (State.step_of_next hnext)

end Program

end QuantityCalculus
