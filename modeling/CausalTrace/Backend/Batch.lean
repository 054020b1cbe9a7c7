import CausalTrace.Trace.Document
import CausalTrace.Trace.Header
import CausalTrace.Decimal.Style

/-!
# Backends and failures

A tracing backend serves traces by id, several at a time.  It may know nothing of an id, ask to be
asked again about it, or fail altogether, and it may answer the same question differently next
time: what it answers depends on a state, which every call may change.

## Main definitions

* `Backend` — batch calls over a state
* `Batch`, `BackendError` — the answers of a call
* `Failure` — why no tree, or no trace, could be had
* `Failure.isTransient`, `Failure.Curable` — the failures that waiting may cure
* `Action` — computations that change a state and may fail

## Design notes

An `Action` keeps the state it has reached when it fails, so that calls made before a failure stay
made.
-/

namespace CausalTrace

/-- The answer to a batch call. -/
structure Batch where
  /-- The traces that the backend knows. -/
  records : List TraceRecord
  /-- The ids that the backend wants to be asked about again. -/
  unprocessed : List TraceId
  deriving Repr

/-- A failure of a backend that has nothing to do with a trace. -/
structure BackendError where
  message : String
  cause : Option String
  deriving DecidableEq, Repr

/-- A backend with states in `σ`: what it answers to a list of ids, and its state afterwards. -/
structure Backend (σ : Type) where
  batch : List TraceId → σ → Except BackendError Batch × σ

/-- Why no tree could be had. -/
inductive Failure
  | malformedHeader (cause : HeaderError)
  /-- The backend does not know the trace, or has none of its segments yet. -/
  | traceNotFound (trace : TraceId)
  /-- No segment of the trace can be the root. -/
  | rootNotFound (trace : TraceId)
  /-- The parent of a segment is not in the trace, and is waited for. -/
  | parentMissing (trace : TraceId) (segment parent : String)
  /-- The parent of a segment is not in the trace, and is not waited for. -/
  | orphaned (trace : TraceId) (segment parent : String)
  /-- A path ends in a segment that is still open. -/
  | leafOpen (trace : TraceId) (segment : String)
  /-- A link leads to a trace that is being entered already; the chain lists those from the
  outermost on. -/
  | linkCycle (trace : TraceId) (chain : List TraceId)
  | invalidTimeout (seconds : Float)
  /-- A document of the trace holds no segment. -/
  | unreadable (trace : TraceId) (cause : DocumentError)
  | backend (cause : BackendError)
  deriving Repr

namespace Failure

/-- The text of a failure. -/
def message : Failure → String
  | malformedHeader e => "invalid tracing header: " ++ e.message
  | traceNotFound t => "trace " ++ t.text ++ " not found"
  | rootNotFound t => "no root segment found in trace " ++ t.text
  | parentMissing t s p =>
    "segment " ++ s ++ " in trace " ++ t.text ++ " references parent " ++ p
      ++ " which has not been ingested yet"
  | orphaned t s p =>
    "found a segment " ++ s ++ " with no parent " ++ p ++ " in trace " ++ t.text
  | leafOpen t s => "leaf segment " ++ s ++ " in trace " ++ t.text ++ " is still in progress"
  | linkCycle t chain =>
    "child trace " ++ t.text ++ " links back into the active chain " ++ TraceId.chainText chain
  | invalidTimeout x =>
    "timeout must be a non-negative number of seconds, got " ++ Decimal.Style.message.render x
  | unreadable t e => "failed to load trace " ++ t.text ++ ": " ++ e.message
  | backend e => "trace backend error: " ++ e.message

/-- Whether the data may simply not have arrived yet. -/
def isTransient : Failure → Bool
  | traceNotFound _ => true
  | rootNotFound _ => true
  | parentMissing .. => true
  | leafOpen .. => true
  | _ => false

/-- The texts of a failure and of what caused it, from the outermost on. -/
def chain : Failure → List String
  | f@(malformedHeader e) => [f.message, e.message]
  | f@(unreadable _ (.unreadable d flaw)) =>
    [f.message, (DocumentError.unreadable d flaw).message, flaw.label]
  | f@(unreadable _ e) => [f.message, e.message]
  | f@(backend e) => f.message :: e.message :: e.cause.toList
  | f => [f.message]

end Failure

/-- A computation that changes a state and gives a result or fails. -/
def Action (σ α : Type) := σ → Except Failure α × σ

namespace Action

variable {σ τ α β : Type}

/-- The result and the state afterwards. -/
def run (x : Action σ α) (s : σ) : Except Failure α × σ := x s

/-- One computation, and then another that depends on its result. -/
def andThen (x : Action σ α) (f : α → Action σ β) : Action σ β := fun s =>
  match x s with
  | (.ok a, s') => f a s'
  | (.error e, s') => (.error e, s')

instance : Monad (Action σ) where
  pure a := fun s => (.ok a, s)
  bind := andThen

/-- Fails. -/
def fail (e : Failure) : Action σ α := fun s => (.error e, s)

/-- A result, or a failure, that does not depend on the state. -/
def ofExcept (x : Except Failure α) : Action σ α := fun s => (x, s)

/-- The state. -/
def get : Action σ σ := fun s => (.ok s, s)

/-- Changes the state. -/
def modify (f : σ → σ) : Action σ Unit := fun s => (.ok (), f s)

/-- A computation on a part of the state. -/
def within (view : τ → σ) (put : σ → τ → τ) (x : Action σ α) : Action τ α := fun t =>
  let (r, s) := x (view t)
  (r, put s t)

end Action

end CausalTrace
