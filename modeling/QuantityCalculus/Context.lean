import QuantityCalculus.Strategy

/-!
# Arithmetic contexts

A context bundles a strategy and a simplify mode. Contexts are built from candidates
that are checked, the strategy before the mode, so every context is valid. One
context is the default; it is replaced whole or field by field, and a replacement
that fails leaves it alone.
-/
namespace QuantityCalculus

inductive SimplifyMode where
  | auto
  | manual
  | step
  deriving DecidableEq, Repr

namespace SimplifyMode

def name : SimplifyMode → String
  | auto => "auto"
  | manual => "manual"
  | step => "step"

def description : SimplifyMode → String
  | auto => "<SimplifyMode.AUTO: 'auto'>"
  | manual => "<SimplifyMode.MANUAL: 'manual'>"
  | step => "<SimplifyMode.STEP: 'step'>"

def ofName? (s : String) : Option SimplifyMode :=
  [auto, manual, step].find? fun mode => mode.name == s

@[simp] theorem ofName?_name (mode : SimplifyMode) : ofName? mode.name = some mode := by
  cases mode <;> decide

end SimplifyMode

/-- A mode is asked for directly or by a value that should be its name. -/
inductive ModeRequest where
  | member (mode : SimplifyMode)
  | named (v : Value)

def ModeRequest.check : ModeRequest → Except Error SimplifyMode
  | member mode => .ok mode
  | named v => do
    let unknown := do .error (.unknownMode (← v.describe))
    match v with
    | .text s => (SimplifyMode.ofName? s).elim unknown .ok
    | _ => unknown

structure Context where
  strategy : NumericStrategy := .real
  mode : SimplifyMode := .auto

structure ContextChanges where
  strategy : Option StrategyCandidate := none
  mode : Option ModeRequest := none
  /-- Some field is named that contexts do not have. -/
  unknownField : Bool := false

namespace Context

def description (c : Context) : String :=
  s!"ArithmeticContext(strategy={c.strategy.description}, simplify_mode={c.mode.description})"

def replace (c : Context) (changes : ContextChanges) : Except Error Context := do
  if changes.unknownField then .error .operandType
  else
    let strategy ← changes.strategy.elim (.ok c.strategy) StrategyCandidate.check
    let mode ← changes.mode.elim (.ok c.mode) ModeRequest.check
    .ok ⟨strategy, mode⟩

/-- A context of its own, with standard contents for the fields not given. -/
def build (fields : ContextChanges) : Except Error Context := replace {} fields

end Context

/-- A write to the default context. -/
inductive Setting where
  | strategy (candidate : StrategyCandidate)
  | mode (request : ModeRequest)
  | whole (fields : ContextChanges)
  /-- Something that is no context. -/
  | foreign (v : Value)

def Setting.apply (setting : Setting) (c : Context) : Except Error Context :=
  match setting with
  | strategy candidate => do .ok { c with strategy := ← candidate.check }
  | mode request => do .ok { c with mode := ← request.check }
  | whole fields => Context.build fields
  | foreign v => .error (.notContext v.typeName)

end QuantityCalculus
