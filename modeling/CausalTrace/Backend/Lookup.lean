import CausalTrace.Backend.Batch

/-!
# Looking traces up

Asks a backend for traces, again and again as long as it reports ids as unprocessed, up to a number
of calls, and normalizes what it hands out.

## Main definitions

* `Lookup` — a backend and the number of calls
* `Lookup.traces` — several traces
* `Lookup.trace` — one trace, which must be there and have segments

## Design notes

The first record of a trace stands; later ones are not even read.  An id that has been served is
never asked for again, whatever the backend says about it, and ids that stay unprocessed to the end
count as unknown.
-/

namespace CausalTrace

/-- How traces are looked up. -/
structure Lookup (σ : Type) where
  backend : Backend σ
  /-- How many calls are made while the backend reports ids as unprocessed. -/
  maxRounds : Nat := 10

namespace Lookup

variable {σ : Type}

/-- The traces of records, added to those already there. -/
def absorb : Table TraceId Trace → List TraceRecord → Except Failure (Table TraceId Trace)
  | found, [] => .ok found
  | found, r :: rest =>
    if found.contains ⟨r.id⟩ then absorb found rest
    else
      match r.trace with
      | .error e => .error (.unreadable ⟨r.id⟩ e)
      | .ok t => absorb (found.insert ⟨r.id⟩ t) rest

/-- Up to a number of calls, as long as ids are left to ask for. -/
def rounds (backend : Backend σ) :
    Nat → List TraceId → Table TraceId Trace → Action σ (Table TraceId Trace)
  | 0, _, found => pure found
  | _ + 1, [], found => pure found
  | n + 1, pending, found => fun s =>
    match backend.batch pending s with
    | (.error e, s') => (.error (.backend e), s')
    | (.ok b, s') =>
      match absorb found b.records with
      | .error e => (.error e, s')
      | .ok found' =>
        rounds backend n (b.unprocessed.filter fun id => !found'.contains id) found' s'

/-- The traces with the given ids that the backend has. -/
def traces (l : Lookup σ) (ids : List TraceId) : Action σ (Table TraceId Trace) :=
  rounds l.backend l.maxRounds ids.eraseDups []

/-- The trace with an id.  A trace without segments counts as not found. -/
def trace (l : Lookup σ) (id : TraceId) : Action σ Trace := do
  let found ← l.traces [id]
  match found.get? id with
  | some t => if t.segments.isEmpty then .fail (.traceNotFound id) else pure t
  | none => .fail (.traceNotFound id)

end Lookup

end CausalTrace
