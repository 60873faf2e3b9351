import QuantityCalculus.Context
import QuantityCalculus.Quantity.Operand

/-!
# Sessions

A session computes with named results under a default context. A script is a
sequence of requests and of blocks; a request that fails is answered by its error
and changes nothing. A block changes the default context for its body alone:
however the body ends and whatever it writes, the context from before is back
afterwards, and if the changes are refused the body does not run.
-/
namespace QuantityCalculus

/-- Something put together from outside, or the error of doing so; it fails a request
only when it is needed. -/
abbrev Offer (α : Type) := Except Error α

inductive Reference where
  | register (name : String)
  | value (v : Offer Value)

inductive Request where
  | make (value physical algebraic symbolic : Value)
  | fromSpec (ns : Namespace) (value spec : Value)
  | dimensionless (value : Value)
  /-- An operation on quantities, in a context of its own if one is given. -/
  | combine (op : Operator) (a b : Reference) (context : Offer (Option ContextChanges))
  | power (a : Reference) (n : Offer Value) (context : Offer (Option ContextChanges))
  | operate (op : Operator) (a b : Reference)
  | powerModulo (a : Reference) (n modulus : Offer Value)
  | convert (a : Reference) (target : Offer Value)
  | render (a : Reference) (word : String)
  | renderAll (a : Reference)
  | isUnitless (a : Reference)
  | compare (a b : Reference)
  | readContext
  | writeContext (setting : Setting)
  | replaceContext (changes : ContextChanges)
  /-- A request that could not be put together, since a value in it is refused. -/
  | malformed (e : Error)

inductive Script where
  | done
  /-- One request; its result is kept under the name, if there is one. -/
  | step (request : Request) (name : Option String) (rest : Script)
  /-- A body under a changed default context, left at its first error or not. -/
  | block (changes : Offer ContextChanges) (untilError : Bool) (body rest : Script)

structure Renderings where
  plain : String
  pretty : String
  physical : String

inductive Answer where
  | operand (result : Operand)
  /-- The quantity asked about, unchanged. -/
  | same
  | text (s : String)
  | renderings (r : Renderings)
  | truth (b : Bool)
  | comparison (c : Comparison)
  | context (c : Context)
  | replaced (new default : Context)
  | failed (e : Error)
  | block (entered : Context) (answers : List Answer) (leftBy : Option Error) (after : Context)
  | refused (e : Error) (after : Context)

/-- Named results, the latest first, and the default context. -/
structure Session where
  registers : List (String × Operand) := []
  default : Context := {}

namespace Session

def lookUp (s : Session) : Reference → Except Error Operand
  | .value v => do .ok (.value (← v))
  | .register name => (s.registers.lookup name).elim (.error (.emptyRegister name)) .ok

def asQuantity : Operand → Except Error Quantity
  | .quantity q => .ok q
  | .value _ => .error .missingMember

def quantityAt (s : Session) (r : Reference) : Except Error Quantity := do
  asQuantity (← s.lookUp r)

/-- The strategy in force: that of the context given, or else of the default. -/
def strategyFor (s : Session) (context : Option ContextChanges) :
    Except Error NumericStrategy :=
  match context with
  | some fields => do .ok (← Context.build fields).strategy
  | none => .ok s.default.strategy

def result (q : Except Error Quantity) : Except Error Answer :=
  q.map fun q => .operand (.quantity q)

def renderings : Operand → Except Error Renderings
  | .quantity q => do .ok ⟨← q.text .plain, ← q.text .pretty, ← q.physicalText⟩
  | .value v => do
    let _ ← v.display
    .error .missingMember

def powerModulo (a : Operand) (n modulus : Value) : Except Error Operand :=
  match a with
  | .quantity _ => .error .moduloPower
  | .value v => do .ok (.value (← v.raiseModulo n modulus))

/-- The answer to a request that writes nothing. Operands are looked up first; of all else
that may have been refused, only what is needed then counts. -/
def answer (s : Session) : Request → Except Error Answer
  | .make value physical algebraic symbolic => result (Quantity.build value physical algebraic symbolic)
  | .fromSpec ns value spec => result (Quantity.ofSpec ns value spec)
  | .dimensionless value => result (.ok (Quantity.dimensionless value))
  | .combine op a b context => do
    let left ← s.lookUp a
    let right ← s.lookUp b
    let strategy ← s.strategyFor (← context)
    result (op.onQuantities strategy (← asQuantity left) (← asQuantity right))
  | .power a n context => do
    let base ← s.lookUp a
    let strategy ← s.strategyFor (← context)
    result ((← asQuantity base).powBy strategy (← n))
  | .operate op a b => do
    .ok (.operand (← op.apply s.default.strategy (← s.lookUp a) (← s.lookUp b)))
  | .powerModulo a n modulus => do
    let base ← s.lookUp a
    let exponent ← n
    match ← modulus with
    | .absent => .ok (.operand (← Operator.pow.apply s.default.strategy base (.value exponent)))
    | m => .ok (.operand (← powerModulo base exponent m))
  | .convert a target => do
    let _ ← (← s.quantityAt a).convertTo (← target)
    .ok .same
  | .render a word => do .ok (.text (← (← s.lookUp a).textAs word))
  | .renderAll a => do .ok (.renderings (← renderings (← s.lookUp a)))
  | .isUnitless a => do .ok (.truth (← s.quantityAt a).isUnitless)
  | .compare a b => do .ok (.comparison (← (← s.lookUp a).compare (← s.lookUp b)))
  | .readContext => .ok (.context s.default)
  | .writeContext setting => do .ok (.context (← setting.apply s.default))
  | .replaceContext changes => do .ok (.replaced (← s.default.replace changes) s.default)
  | .malformed e => .error e

/-- Keep a result under a name and a written context as the default. -/
def record (s : Session) (request : Request) (name : Option String) (a : Answer) : Session :=
  match request, name, a with
  | _, some name, .operand o => { s with registers := (name, o) :: s.registers }
  | .writeContext _, _, .context c => { s with default := c }
  | _, _, _ => s

/-- What a script brings about: its answers in order, the error that it was left by,
and the session afterwards. -/
structure Outcome where
  answers : List Answer
  leftBy : Option Error
  session : Session

namespace Outcome

def cons (a : Answer) (o : Outcome) : Outcome := { o with answers := a :: o.answers }

end Outcome

/-- Run a script to its end, or to the first request that fails. -/
def run (untilError : Bool) : Script → Session → Outcome
  | .done, s => ⟨[], none, s⟩
  | .step request name rest, s =>
    match s.answer request with
    | .ok a => (run untilError rest (s.record request name a)).cons a
    | .error e => if untilError then ⟨[], some e, s⟩ else (run untilError rest s).cons (.failed e)
  | .block changes bodyUntilError body rest, s =>
    match changes.bind s.default.replace with
    | .ok entered =>
      let inner := run bodyUntilError body { s with default := entered }
      let a := Answer.block entered inner.answers inner.leftBy s.default
      (run untilError rest { inner.session with default := s.default }).cons a
    | .error e => (run untilError rest s).cons (.refused e s.default)

def answers (script : Script) : List Answer := (run false script {}).answers

end Session

end QuantityCalculus
