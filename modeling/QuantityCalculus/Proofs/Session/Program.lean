import Mathlib.Logic.Relation
import QuantityCalculus.Session

/-!
# Programs with blocks, step by step

In a program an error is passed outwards: it ends the request that it comes from and every
block around it, up to a guard that catches it. The machine below takes single steps. For
every block and guard that is open it has a frame on a stack, and the frame of a block keeps
the context that was in force on entry. Sessions are the same as for scripts, which are
programs with a guard around each request and block whose error they answer.
-/
namespace QuantityCalculus

inductive Program where
  | done
  | request (request : Request) (name : Option String) (rest : Program)
  /-- A body under a changed default context. -/
  | block (changes : ContextChanges) (body rest : Program)
  /-- A body whose errors are caught. -/
  | guard (body rest : Program)

namespace Program

inductive Frame where
  | block (before : Context) (rest : Program)
  | guard (rest : Program)

/-- What is done next: a program is run, or the innermost frame is left, by an error or
normally. -/
inductive Control where
  | run (p : Program)
  | exit (leftBy : Option Error)

structure State where
  session : Session
  control : Control
  frames : List Frame

/-- After a block an error goes on outwards. -/
def Control.after (rest : Program) : Option Error → Control
  | none => run rest
  | some e => exit (some e)

def Frame.leave (s : Session) (leftBy : Option Error) (frames : List Frame) : Frame → State
  | block before rest => ⟨{ s with default := before }, .after rest leftBy, frames⟩
  | guard rest => ⟨s, .run rest, frames⟩

@[simp] theorem Frame.frames_leave (f : Frame) (s : Session) (leftBy : Option Error)
    (frames : List Frame) : (f.leave s leftBy frames).frames = frames := by
  cases f <;> rfl

namespace State

/-- One step; there is none once the outermost program is left. -/
def next : State → Option State
  | ⟨_, .exit _, []⟩ => none
  | ⟨s, .exit leftBy, f :: frames⟩ => some (f.leave s leftBy frames)
  | ⟨s, .run .done, frames⟩ => some ⟨s, .exit none, frames⟩
  | ⟨s, .run (.request r name rest), frames⟩ =>
    match s.answer r with
    | .ok a => some ⟨s.record r name a, .run rest, frames⟩
    | .error e => some ⟨s, .exit (some e), frames⟩
  | ⟨s, .run (.block changes body rest), frames⟩ =>
    match s.default.replace changes with
    | .ok c => some ⟨{ s with default := c }, .run body, .block s.default rest :: frames⟩
    | .error e => some ⟨s, .exit (some e), frames⟩
  | ⟨s, .run (.guard body rest), frames⟩ => some ⟨s, .run body, .guard rest :: frames⟩

abbrev Steps : State → State → Prop := Relation.ReflTransGen fun a b => a.next = some b

/-- The state after some number of steps, if there are so many. -/
def after (a : State) : Nat → Option State
  | 0 => some a
  | n + 1 => (a.after n).bind next

/-- A step between states that have these frames at the bottom of their stacks. -/
def StepsOn (frames : List Frame) (a b : State) : Prop :=
  a.next = some b ∧ frames <:+ a.frames ∧ frames <:+ b.frames

/-- A run that leaves none of these frames. -/
abbrev RunsOn (frames : List Frame) : State → State → Prop :=
  Relation.ReflTransGen (StepsOn frames)

variable {s : Session} {frames : List Frame} {name : Option String} {body rest : Program}

section

variable {r : Request} {a : Answer} {e : Error} {changes : ContextChanges} {c : Context}

theorem next_request_ok (h : s.answer r = .ok a) :
    next ⟨s, .run (.request r name rest), frames⟩ =
      some ⟨s.record r name a, .run rest, frames⟩ := by
  rw [next, h]

theorem next_request_error (h : s.answer r = .error e) :
    next ⟨s, .run (.request r name rest), frames⟩ = some ⟨s, .exit (some e), frames⟩ := by
  rw [next, h]

theorem next_block_ok (h : s.default.replace changes = .ok c) :
    next ⟨s, .run (.block changes body rest), frames⟩ =
      some ⟨{ s with default := c }, .run body, .block s.default rest :: frames⟩ := by
  rw [next, h]

theorem next_block_error (h : s.default.replace changes = .error e) :
    next ⟨s, .run (.block changes body rest), frames⟩ = some ⟨s, .exit (some e), frames⟩ := by
  rw [next, h]

end

/-- All that a step can do. -/
inductive Step : State → State → Prop where
  | leave (s : Session) (leftBy : Option Error) (f : Frame) (frames : List Frame) :
    Step ⟨s, .exit leftBy, f :: frames⟩ (f.leave s leftBy frames)
  | done (s : Session) (frames : List Frame) :
    Step ⟨s, .run .done, frames⟩ ⟨s, .exit none, frames⟩
  | answered {s : Session} {r : Request} {a : Answer} (name : Option String) (rest : Program)
    (frames : List Frame) (h : s.answer r = .ok a) :
    Step ⟨s, .run (.request r name rest), frames⟩ ⟨s.record r name a, .run rest, frames⟩
  | failed {s : Session} {r : Request} {e : Error} (name : Option String) (rest : Program)
    (frames : List Frame) (h : s.answer r = .error e) :
    Step ⟨s, .run (.request r name rest), frames⟩ ⟨s, .exit (some e), frames⟩
  | entered {s : Session} {changes : ContextChanges} {c : Context} (body rest : Program)
    (frames : List Frame) (h : s.default.replace changes = .ok c) :
    Step ⟨s, .run (.block changes body rest), frames⟩
      ⟨{ s with default := c }, .run body, .block s.default rest :: frames⟩
  | refused {s : Session} {changes : ContextChanges} {e : Error} (body rest : Program)
    (frames : List Frame) (h : s.default.replace changes = .error e) :
    Step ⟨s, .run (.block changes body rest), frames⟩ ⟨s, .exit (some e), frames⟩
  | guarded (s : Session) (body rest : Program) (frames : List Frame) :
    Step ⟨s, .run (.guard body rest), frames⟩ ⟨s, .run body, .guard rest :: frames⟩

theorem Step.next {a b : State} (h : Step a b) : a.next = some b := by
  cases h with
  | leave | done | guarded => rfl
  | answered name rest frames h => exact next_request_ok h
  | failed name rest frames h => exact next_request_error h
  | entered body rest frames h => exact next_block_ok h
  | refused body rest frames h => exact next_block_error h

theorem exists_step (a : State) :
    (∃ s leftBy, a = ⟨s, .exit leftBy, []⟩) ∨ ∃ b, Step a b := by
  obtain ⟨s, control, frames⟩ := a
  cases control with
  | exit leftBy =>
    cases frames with
    | nil => exact .inl ⟨s, leftBy, rfl⟩
    | cons f frames => exact .inr ⟨_, .leave s leftBy f frames⟩
  | run p =>
    right
    cases p with
    | done => exact ⟨_, .done s frames⟩
    | request r name rest =>
      cases hanswer : s.answer r with
      | ok a => exact ⟨_, .answered name rest frames hanswer⟩
      | error e => exact ⟨_, .failed name rest frames hanswer⟩
    | block changes body rest =>
      cases hentered : s.default.replace changes with
      | ok c => exact ⟨_, .entered body rest frames hentered⟩
      | error e => exact ⟨_, .refused body rest frames hentered⟩
    | guard body rest => exact ⟨_, .guarded s body rest frames⟩

theorem step_of_next {a b : State} (h : a.next = some b) : Step a b := by
  rcases exists_step a with ⟨s, leftBy, rfl⟩ | ⟨b', hstep⟩
  · cases h
  · cases hstep.next.symm.trans h
    exact hstep

/-- A step keeps all frames or leaves the topmost one. -/
theorem next_frames {a b : State} (h : a.next = some b) :
    a.frames <:+ b.frames ∨
      ∃ f leftBy frames, a = ⟨a.session, .exit leftBy, f :: frames⟩ ∧
        b = f.leave a.session leftBy frames := by
  cases step_of_next h with
  | leave s leftBy f frames => exact .inr ⟨f, leftBy, frames, rfl, rfl⟩
  | done | answered | failed | refused => exact .inl List.suffix_rfl
  | entered | guarded => exact .inl (List.suffix_cons _ _)

variable {f : Frame} {a b : State} {leftBy : Option Error} {s' : Session}

theorem RunsOn.suffix (h : RunsOn frames a b) (ha : frames <:+ a.frames) :
    frames <:+ b.frames := by
  cases h with
  | refl => exact ha
  | tail _ hlast => exact hlast.2.2

theorem RunsOn.mono (h : RunsOn (f :: frames) a b) : RunsOn frames a b := by
  have hshorter : frames <:+ f :: frames := List.suffix_cons f frames
  have hsteps : ∀ x y, StepsOn (f :: frames) x y → StepsOn frames x y := by
    rintro x y ⟨hnext, hx, hy⟩
    exact ⟨hnext, hshorter.trans hx, hshorter.trans hy⟩
  exact Relation.ReflTransGen.mono hsteps a b h

theorem runsOn_of_next (h : a.next = some b) (ha : frames <:+ a.frames) (hb : frames <:+ b.frames) :
    RunsOn frames a b := .single ⟨h, ha, hb⟩

/-- A step that neither enters nor leaves a frame. -/
theorem runsOn_of_flat {control control' : Control}
    (h : next ⟨s, control, frames⟩ = some ⟨s', control', frames⟩) :
    RunsOn frames ⟨s, control, frames⟩ ⟨s', control', frames⟩ :=
  runsOn_of_next h List.suffix_rfl List.suffix_rfl

/-- A frame is entered, what runs on it comes to an end, the frame is left, and so on. -/
theorem RunsOn.through (hframes : a.frames = frames)
    (henter : a.next = some ⟨s, .run body, f :: frames⟩)
    (hbody : RunsOn (f :: frames) ⟨s, .run body, f :: frames⟩ ⟨s', .exit leftBy, f :: frames⟩)
    (hrest : RunsOn frames (f.leave s' leftBy frames) b) : RunsOn frames a b := by
  have hin : RunsOn frames a ⟨s, .run body, f :: frames⟩ :=
    runsOn_of_next henter (hframes ▸ List.suffix_rfl) (List.suffix_cons f frames)
  have hout : RunsOn frames ⟨s', .exit leftBy, f :: frames⟩ (f.leave s' leftBy frames) :=
    runsOn_of_next rfl (List.suffix_cons f frames) (by simp)
  exact ((hin.trans hbody.mono).trans hout).trans hrest

end State

open State

/-- The program is left in the end, whatever it stands on, and on the way nothing below it. -/
def Ends (p : Program) : Prop :=
  ∀ s frames, ∃ s' leftBy, RunsOn frames ⟨s, .run p, frames⟩ ⟨s', .exit leftBy, frames⟩

theorem Ends.after {rest : Program} (h : rest.Ends) (s : Session) (leftBy : Option Error)
    (frames : List Frame) :
    ∃ s' leftBy', RunsOn frames ⟨s, .after rest leftBy, frames⟩ ⟨s', .exit leftBy', frames⟩ := by
  cases leftBy with
  | none => exact h s frames
  | some e => exact ⟨s, some e, .refl⟩

/-- Every program comes to an end, normally or by an error. -/
theorem ends (p : Program) : p.Ends := by
  induction p with
  | done =>
    intro s frames
    exact ⟨s, none, runsOn_of_flat rfl⟩
  | request r name rest ih =>
    intro s frames
    cases hanswer : s.answer r with
    | ok a =>
      obtain ⟨s', leftBy, hrest⟩ := ih (s.record r name a) frames
      exact ⟨s', leftBy, (runsOn_of_flat (next_request_ok hanswer)).trans hrest⟩
    | error e => exact ⟨s, some e, runsOn_of_flat (next_request_error hanswer)⟩
  | block changes body rest ihbody ihrest =>
    intro s frames
    cases hentered : s.default.replace changes with
    | ok c =>
      -- what follows starts in the context from before, with the error of the body if it has one
      obtain ⟨s₁, leftBy₁, hbody⟩ :=
        ihbody { s with default := c } (.block s.default rest :: frames)
      obtain ⟨s₂, leftBy₂, hrest⟩ := ihrest.after { s₁ with default := s.default } leftBy₁ frames
      exact ⟨s₂, leftBy₂, .through rfl (next_block_ok hentered) hbody hrest⟩
    | error e => exact ⟨s, some e, runsOn_of_flat (next_block_error hentered)⟩
  | guard body rest ihbody ihrest =>
    intro s frames
    obtain ⟨s₁, leftBy₁, hbody⟩ := ihbody s (.guard rest :: frames)
    obtain ⟨s₂, leftBy₂, hrest⟩ := ihrest s₁ frames
    exact ⟨s₂, leftBy₂, .through rfl rfl hbody hrest⟩

end Program

namespace Script

def toProgram (untilError : Bool) : Script → Program
  | done => .done
  | step request name rest =>
    if untilError then .request request name (rest.toProgram untilError)
    else .guard (.request request name .done) (rest.toProgram untilError)
  | block (.ok changes) bodyUntilError body rest =>
    .guard (.block changes (body.toProgram bodyUntilError) .done) (rest.toProgram untilError)
  | block (.error e) _ _ rest =>
    .guard (.request (.malformed e) none .done) (rest.toProgram untilError)

open Program State

variable {s : Session} {frames : List Frame} {r : Request} {a : Answer} {e : Error}
  {name : Option String} {rest : Program} {leftBy : Option Error}

theorem runsOn_guarded_ok (h : s.answer r = .ok a) :
    RunsOn frames ⟨s, .run (.guard (.request r name .done) rest), frames⟩
      ⟨s.record r name a, .run rest, frames⟩ :=
  .through rfl rfl ((runsOn_of_flat (next_request_ok h)).trans (runsOn_of_flat rfl)) .refl

theorem runsOn_guarded_error (h : s.answer r = .error e) :
    RunsOn frames ⟨s, .run (.guard (.request r name .done) rest), frames⟩
      ⟨s, .run rest, frames⟩ :=
  .through rfl rfl (runsOn_of_flat (next_request_error h)) .refl

theorem runsOn_after_done :
    RunsOn frames ⟨s, .after .done leftBy, frames⟩ ⟨s, .exit leftBy, frames⟩ := by
  cases leftBy with
  | none => exact runsOn_of_flat rfl
  | some e => exact .refl

/-- A script and its program end in the same session and are left by the same error. -/
theorem runsOn_toProgram (script : Script) (untilError : Bool) (s : Session)
    (frames : List Frame) :
    RunsOn frames ⟨s, .run (script.toProgram untilError), frames⟩
      ⟨(Session.run untilError script s).session,
        .exit (Session.run untilError script s).leftBy, frames⟩ := by
  induction script generalizing untilError s frames with
  | done => exact runsOn_of_flat rfl
  | step r name rest ih =>
    rw [toProgram, Session.run]
    cases hanswer : s.answer r with
    | ok a =>
      have hrest := ih untilError (s.record r name a) frames
      cases untilError with
      | true => exact (runsOn_of_flat (next_request_ok hanswer)).trans hrest
      | false => exact (runsOn_guarded_ok hanswer).trans hrest
    | error e =>
      cases untilError with
      | true => exact runsOn_of_flat (next_request_error hanswer)
      | false => exact (runsOn_guarded_error hanswer).trans (ih false s frames)
  | block changes bodyUntilError body rest ihbody ihrest =>
    cases changes with
    | error e => exact (runsOn_guarded_error rfl).trans (ihrest untilError s frames)
    | ok changes =>
      have hchanges : (Except.ok changes : Offer ContextChanges).bind s.default.replace =
          s.default.replace changes := rfl
      rw [toProgram, Session.run, hchanges]
      cases hentered : s.default.replace changes with
      | ok c =>
        -- the frame of the block stands on one that catches the error the body is left by
        have hbody := ihbody bodyUntilError { s with default := c }
          (.block s.default .done :: .guard (rest.toProgram untilError) :: frames)
        have hblock := RunsOn.through rfl (next_block_ok hentered) hbody runsOn_after_done
        exact .through rfl rfl hblock (ihrest untilError _ frames)
      | error e =>
        exact .through rfl rfl (runsOn_of_flat (next_block_error hentered))
          (ihrest untilError s frames)

end Script

end QuantityCalculus
