import CausalTrace.Assembly.Splice
import CausalTrace.Polling.Run

/-!
# Waiting for a tree

Polls a backend for the tree of a header until the tree is accepted.  Every attempt looks all traces
up afresh.

## Main definitions

* `Tree.ofHeaderText` — one attempt, from the text of a header
* `Tree.job` — the attempts for a header
* `Tree.await` — polling with a policy
* `Tree.awaitFor` — polling with a header and a timeout that have still to be read
-/

namespace CausalTrace

/-- A timeout in seconds, as a failure when it is none. -/
def Timeout.read (seconds : Float) : Except Failure Timeout :=
  match Timeout.ofSeconds? seconds with
  | some t => .ok t
  | none => .error (.invalidTimeout seconds)

/-- The header of a text, as a failure when it is none. -/
def Header.read (text : String) : Except Failure Header :=
  (Header.parse text).mapError Failure.malformedHeader

namespace Tree

variable {σ : Type}

/-- The tree of the text of a header. -/
def ofHeaderText (l : Lookup σ) (header : String) (options : Options) : Action σ Tree := do
  build l (← .ofExcept (Header.read header)) options

/-- What is polled for the tree of a header. -/
def job (l : Lookup σ) (header : Header) (options : Options) (check : Check σ Tree) :
    Job σ Failure Tree :=
  ⟨build l header options, Failure.isTransient, Failure.message, check⟩

/-- Polls for the tree of a header. -/
def await (clock : Clock σ) (policy : Policy) (l : Lookup σ) (header : Header)
    (options : Options) (check : Check σ Tree) (s : σ) : Report σ Failure Tree :=
  Polling.run clock policy (job l header options check) s

/-- The header of a text, and a timeout of a number of seconds.  Whether the header can be read is
decided first. -/
def readTarget (header : String) (seconds : Float) : Except Failure (Header × Timeout) := do
  let h ← Header.read header
  let timeout ← Timeout.read seconds
  return (h, timeout)

/-- Polls for the tree of the text of a header, for a number of seconds.  Whether both can be read
is decided before anything is asked of the backend. -/
def awaitFor (clock : Clock σ) (baseDelay : Nat) (l : Lookup σ) (header : String)
    (options : Options) (check : Check σ Tree) (seconds : Float) (s : σ) :
    Report σ Failure Tree :=
  match readTarget header seconds with
  | .error e => ⟨.failed e, [], s⟩
  | .ok (h, timeout) => await clock ⟨timeout, baseDelay, none⟩ l h options check s

end Tree

end CausalTrace
