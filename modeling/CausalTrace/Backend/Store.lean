import CausalTrace.Backend.Batch

/-!
# A backend in memory

A store holds traces as lists of documents.  It stands in for a backend whose data arrives late:
documents can be added between calls, ids can be made to be reported as unprocessed for a number of
calls, and calls can be made to fail.  It keeps a log of the calls.

## Main definitions

* `Store`, `Store.Entry`
* `Store.ingest`, `Store.insert`, `Store.remove`, `Store.setDuration`, `Store.setLimitExceeded`
* `Store.defer`, `Store.failWith`, `Store.clearFailure`
* `Store.batch`, `Store.backend` — the store as a backend

## Design notes

A call that fails is logged and changes nothing else; in particular it uses up no deferral.
Ingestion replaces a document with the same id where it stands, as a backend does when a segment is
sent again with its end time.
-/

namespace CausalTrace

/-- What a store holds of a trace. -/
structure Store.Entry where
  duration : Option Float
  limitExceeded : Bool
  documents : List Document
  deriving Repr

/-- A backend in memory. -/
structure Store where
  traces : Table TraceId Store.Entry
  /-- How many more times an id is reported as unprocessed. -/
  deferrals : Table TraceId Nat
  /-- The message that calls fail with, if they are to fail. -/
  failure : Option String
  /-- The ids of every call so far. -/
  requests : List (List TraceId)
  deriving Repr

namespace Store

/-- A store that holds nothing. -/
def empty : Store := ⟨[], [], none, []⟩

instance : Inhabited Store := ⟨empty⟩

/-! ### Changing what is stored -/

/-- A document put in the place of the first one with its id, or at the end. -/
def upsert : List Document → Document → List Document
  | [], d => [d]
  | e :: rest, d => if e.id = d.id then d :: rest else e :: upsert rest d

/-- Puts a trace in the place of what is stored under its id. -/
def insert (s : Store) (r : TraceRecord) : Store :=
  { s with
    traces := s.traces.insert ⟨r.id⟩ ⟨r.duration, r.limitExceeded.getD false, r.documents⟩ }

/-- The store of the given traces; of several with one id the last stands. -/
def ofRecords (records : List TraceRecord) : Store := records.foldl insert empty

/-- Adds documents to a trace, which need not be there yet.  Gives their number. -/
def ingest (s : Store) (trace : TraceId) (documents : List Document) : Store × Nat :=
  let entry := (s.traces.get? trace).getD ⟨none, false, []⟩
  let changed := { entry with documents := documents.foldl upsert entry.documents }
  ({ s with traces := s.traces.insert trace changed }, documents.length)

/-- Sets the duration of a trace that is stored. -/
def setDuration (s : Store) (trace : TraceId) (seconds : Float) : Store :=
  { s with traces := s.traces.modify trace fun e => { e with duration := some seconds } }

/-- Sets whether a trace that is stored was cut for its size. -/
def setLimitExceeded (s : Store) (trace : TraceId) (limitExceeded : Bool) : Store :=
  { s with traces := s.traces.modify trace fun e => { e with limitExceeded := limitExceeded } }

/-- Removes a trace.  Gives whether it was there. -/
def remove (s : Store) (trace : TraceId) : Store × Bool :=
  ({ s with traces := s.traces.erase trace }, s.traces.contains trace)

/-! ### Changing how calls are answered -/

/-- Has an id reported as unprocessed the next times it is asked for. -/
def defer (s : Store) (trace : TraceId) (times : Nat) : Store :=
  { s with deferrals := s.deferrals.insert trace times }

/-- Has calls fail from now on. -/
def failWith (s : Store) (message : String) : Store := { s with failure := some message }

/-- Has calls no longer fail. -/
def clearFailure (s : Store) : Store := { s with failure := none }

/-- How many more times an id is reported as unprocessed. -/
def pending (s : Store) (trace : TraceId) : Nat := (s.deferrals.get? trace).getD 0

/-- The number of calls so far. -/
def requestCount (s : Store) : Nat := s.requests.length

/-! ### Batch calls -/

/-- The record of a stored trace. -/
def record? (s : Store) (trace : TraceId) : Option TraceRecord :=
  (s.traces.get? trace).map fun e => ⟨trace.text, e.duration, some e.limitExceeded, e.documents⟩

/-- The answer to one id, added to the answers before it. -/
def answer (s : Store) (b : Batch) (trace : TraceId) : Batch × Store :=
  match s.pending trace with
  | n + 1 =>
    ({ b with unprocessed := b.unprocessed ++ [trace] },
      { s with deferrals := s.deferrals.insert trace n })
  | 0 => ({ b with records := b.records ++ (s.record? trace).toList }, s)

/-- The answers to ids in a row. -/
def answerAll (s : Store) (b : Batch) : List TraceId → Batch × Store
  | [] => (b, s)
  | trace :: rest =>
    let (b', s') := s.answer b trace
    answerAll s' b' rest

/-- A batch call. -/
def batch (ids : List TraceId) (s : Store) : Except BackendError Batch × Store :=
  let logged := { s with requests := s.requests ++ [ids] }
  match s.failure with
  | some message => (.error ⟨message, none⟩, logged)
  | none =>
    let (b, s') := logged.answerAll ⟨[], []⟩ ids
    (.ok b, s')

/-- The store as a backend. -/
def backend : Backend Store := ⟨batch⟩

end Store

end CausalTrace
