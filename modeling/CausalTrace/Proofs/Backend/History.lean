import CausalTrace.Proofs.Backend.Deferral
import CausalTrace.Proofs.Backend.Reordering

/-!
# The history of a store

A store is changed and called in any order: documents come and go, ids are put off, calls are made
to fail and to succeed again.  Whatever is done in between, the log lists the calls, a call that
fails uses nothing up, and an id that is put off `n` times is put off in exactly the next `n`
look-ups that are answered.

## Main definitions

* `Reply`, `Batch.ofReplies` — what a call says about each id that it asks for
* `Store.Operation`, `Store.after` — what can be done with a store, and the store afterwards
* `Store.lookups` — the replies to one id, call after call
* `Store.PutOffFirst` — exactly the first of some replies put off
* `Store.Account` — what is known of a store by what was done with it

## Main statements

* `Store.answerAll_eq` — a call gives a reply to each id, in their order
* `Store.putOffFirst_lookups` — the replies while an id is not put off anew
* `Store.account_after` — the account of every history

## Design notes

A batch does not say which of several look-ups of one id was put off.  The replies do: a look-up is
one id of one call, so that an id that stands twice in a call is looked up twice.

What an operation does to the counter of an id is the same for all of them: it goes down by the
number of replies that the operation gives to that id (`Store.Operation.pending_perform`).  Setting
the counter is the one exception, and it begins the count anew.
-/

namespace CausalTrace

/-- What a call says about one id that it asks for. -/
inductive Reply
  /-- The id is to be asked for again. -/
  | putOff
  | found (r : TraceRecord)
  | unknown

namespace Reply

/-- The record that is handed out. -/
def record? : Reply → Option TraceRecord
  | found r => some r
  | _ => none

/-- Whether the id is to be asked for again. -/
def isPutOff : Reply → Bool
  | putOff => true
  | _ => false

/-- A reply that does not put off says what a store holds under an id. -/
inductive Says (s : Store) (id : TraceId) : Reply → Prop
  | putOff : Says s id .putOff
  | found {e : Store.Entry} (h : s.traces.get? id = some e) :
      Says s id (.found ⟨id.text, e.duration, some e.limitExceeded, e.documents⟩)
  | unknown (h : s.traces.get? id = none) : Says s id .unknown

/-- What a reply says concerns the traces of a store only. -/
theorem Says.congr {s s' : Store} {id : TraceId} {r : Reply} (hr : r.Says s' id)
    (h : s'.traces = s.traces) : r.Says s id := by
  cases hr with
  | putOff => exact .putOff
  | found he => exact .found (h ▸ he)
  | unknown he => exact .unknown (h ▸ he)

end Reply

/-- The answer to a call, from the replies to its ids in their order. -/
def Batch.ofReplies (replies : List (TraceId × Reply)) : Batch where
  records := replies.filterMap fun p => p.2.record?
  unprocessed := (replies.filter fun p => p.2.isPutOff).map Prod.fst

namespace Store

variable {s s' : Store} {id : TraceId}

/-! ### Replies -/

/-- The reply to an id. -/
def reply (s : Store) (id : TraceId) : Reply :=
  if s.pending id = 0 then (s.record? id).elim .unknown .found else .putOff

/-- The replies to ids in a row. -/
def replies (s : Store) : List TraceId → List (TraceId × Reply)
  | [] => []
  | id :: rest => (id, s.reply id) :: (s.answer ⟨[], []⟩ id).2.replies rest

/-- The replies to one id among those to ids in a row. -/
def repliesTo (s : Store) (ids : List TraceId) (id : TraceId) : List Reply :=
  ((s.replies ids).filter fun p => p.1 = id).map Prod.snd

/-- A reply depends on the counters and the traces of a store only. -/
theorem reply_congr (hdeferrals : s'.deferrals = s.deferrals) (htraces : s'.traces = s.traces)
    (id : TraceId) : s'.reply id = s.reply id := by
  unfold reply pending record?
  rw [hdeferrals, htraces]

/-- What is left of a store by an answer does not depend on the answers before. -/
theorem answer_snd (s : Store) (b b' : Batch) (id : TraceId) :
    (s.answer b id).2 = (s.answer b' id).2 := by
  unfold answer
  split <;> rfl

theorem replies_congr (ids : List TraceId) :
    ∀ {s s' : Store}, s'.deferrals = s.deferrals → s'.traces = s.traces →
      s'.replies ids = s.replies ids := by
  induction ids with
  | nil => exact fun _ _ => rfl
  | cons id rest ih =>
      intro s s' hdeferrals htraces
      have hpending : s'.pending id = s.pending id := by unfold pending; rw [hdeferrals]
      rw [replies, replies, reply_congr hdeferrals htraces]
      congr 1
      unfold answer
      rw [hpending]
      cases s.pending id with
      | zero => exact ih hdeferrals htraces
      | succ n => exact ih (by simp only [hdeferrals]) htraces

/-- An id is answered by the reply to it. -/
theorem answer_fst (s : Store) (b : Batch) (id : TraceId) :
    (s.answer b id).1 = ⟨b.records ++ (s.reply id).record?.toList,
      b.unprocessed ++ if (s.reply id).isPutOff then [id] else []⟩ := by
  unfold answer reply
  cases s.pending id with
  | zero => cases s.record? id <;> simp [Reply.record?, Reply.isPutOff]
  | succ n => simp [Reply.record?, Reply.isPutOff]

/-- A call gives a reply to each id, in their order. -/
theorem answerAll_eq (ids : List TraceId) :
    ∀ (s : Store) (b : Batch), (s.answerAll b ids).1
      = ⟨b.records ++ (Batch.ofReplies (s.replies ids)).records,
          b.unprocessed ++ (Batch.ofReplies (s.replies ids)).unprocessed⟩ := by
  induction ids with
  | nil => exact fun s b => by simp [answerAll, replies, Batch.ofReplies]
  | cons id rest ih =>
      intro s b
      have hall : (s.answerAll b (id :: rest)).1
          = ((s.answer b id).2.answerAll (s.answer b id).1 rest).1 := rfl
      rw [hall, ih, answer_snd s b ⟨[], []⟩, answer_fst, replies]
      cases hreply : s.reply id <;> simp [Batch.ofReplies, Reply.record?, Reply.isPutOff]

theorem map_fst_replies (ids : List TraceId) :
    ∀ s : Store, (s.replies ids).map Prod.fst = ids := by
  induction ids with
  | nil => exact fun _ => rfl
  | cons id rest ih => exact fun s => congrArg (id :: ·) (ih _)

/-- Replies that do not put off say what is held. -/
theorem says_of_mem_replies (ids : List TraceId) :
    ∀ {s : Store}, ∀ p ∈ s.replies ids, p.2.Says s p.1 := by
  induction ids with
  | nil => exact fun p hp => absurd hp List.not_mem_nil
  | cons id rest ih =>
      intro s p hp
      rcases List.mem_cons.mp hp with rfl | hp
      · show (s.reply id).Says s id
        unfold reply record?
        split
        · cases he : s.traces.get? id with
          | none => exact .unknown he
          | some e => exact .found he
        · exact .putOff
      · exact (ih p hp).congr (answer_worn s ⟨[], []⟩ id).1.traces

/-! ### Replies to one id -/

/-- Exactly the first of some replies put off. -/
structure PutOffFirst (n : Nat) (replies : List Reply) : Prop where
  first : ∀ r ∈ replies.take n, r = .putOff
  others : ∀ r ∈ replies.drop n, r ≠ .putOff

theorem PutOffFirst.nil (n : Nat) : PutOffFirst n [] :=
  ⟨fun _ h => by simp at h, fun _ h => by simp at h⟩

/-- Replies that put off first, and then others that go on where these stopped. -/
theorem PutOffFirst.append {n : Nat} {front back : List Reply} (hfront : PutOffFirst n front)
    (hback : PutOffFirst (n - front.length) back) : PutOffFirst n (front ++ back) where
  first r hr := by
    rw [List.take_append] at hr
    exact (List.mem_append.mp hr).elim (hfront.first r) (hback.first r)
  others r hr := by
    rw [List.drop_append] at hr
    exact (List.mem_append.mp hr).elim (hfront.others r) (hback.others r)

/-- A single reply puts off if the counter is not zero. -/
theorem putOffFirst_reply (s : Store) (id : TraceId) :
    PutOffFirst (s.pending id) [s.reply id] := by
  unfold reply
  cases hp : s.pending id with
  | zero =>
      refine ⟨fun _ h => by simp at h, fun r h => ?_⟩
      obtain rfl : r = (s.record? id).elim .unknown .found := by simpa using h
      cases s.record? id <;> rintro ⟨⟩
  | succ n => exact ⟨fun r h => by simpa using h, fun _ h => by simp at h⟩

/-- An id that is asked for several times in one call gets as many replies. -/
theorem length_repliesTo (s : Store) (ids : List TraceId) (id : TraceId) :
    (s.repliesTo ids id).length = ids.count id := by
  have hcount : ids.count id = ((s.replies ids).map Prod.fst).count id := by
    rw [map_fst_replies]
  rw [hcount, List.count, List.countP_map, List.countP_eq_length_filter, repliesTo, List.length_map]
  congr 1

/-- In one call the first look-ups of an id are put off, as many as its counter says. -/
theorem putOffFirst_repliesTo (ids : List TraceId) :
    ∀ (s : Store) (id : TraceId), PutOffFirst (s.pending id) (s.repliesTo ids id) := by
  induction ids with
  | nil => exact fun s id => .nil _
  | cons i rest ih =>
      intro s id
      have hrest := ih (s.answer ⟨[], []⟩ i).2 id
      rw [(answer_worn s ⟨[], []⟩ i).1.pending] at hrest
      by_cases hi : i = id
      · subst hi
        have hcons : s.repliesTo (i :: rest) i
            = [s.reply i] ++ (s.answer ⟨[], []⟩ i).2.repliesTo rest i := by
          simp [repliesTo, replies]
        rw [List.count_singleton_self] at hrest
        rw [hcons]
        exact (putOffFirst_reply s i).append hrest
      · have hcons : s.repliesTo (i :: rest) id
            = (s.answer ⟨[], []⟩ i).2.repliesTo rest id := by
          simp [repliesTo, replies, hi]
        rw [hcons]
        simpa [List.count_singleton, hi] using hrest

/-! ### Calls -/

/-- A call that is answered. -/
theorem batch_answered (h : s.failure = none) (ids : List TraceId) :
    (s.batch ids).1 = .ok (.ofReplies (s.replies ids)) ∧
      Worn s (fun i => ids.count i) (s.batch ids).2 ∧
      (s.batch ids).2.requests = s.requests ++ [ids] := by
  let logged : Store := { s with requests := s.requests ++ [ids] }
  obtain ⟨hworn, hlog⟩ := answerAll_worn ids logged ⟨[], []⟩
  have hreplies : logged.replies ids = s.replies ids := replies_congr ids rfl rfl
  rw [batch_steady h, answerAll_eq, hreplies]
  -- the counters of the store are not changed by logging the call
  exact ⟨rfl, ⟨hworn.pending, hworn.untouched, hworn.traces, hworn.failure⟩, hlog⟩

/-! ### Operations -/

/-- Something that can be done with a store. -/
inductive Operation
  | insert (r : TraceRecord)
  | ingest (trace : TraceId) (documents : List Document)
  | setDuration (trace : TraceId) (seconds : Float)
  | setLimitExceeded (trace : TraceId) (limitExceeded : Bool)
  | remove (trace : TraceId)
  | defer (trace : TraceId) (times : Nat)
  | failWith (message : String)
  | clearFailure
  | call (ids : List TraceId)

namespace Operation

/-- The store after an operation. -/
def perform (s : Store) : Operation → Store
  | insert r => s.insert r
  | ingest trace documents => (s.ingest trace documents).1
  | setDuration trace seconds => s.setDuration trace seconds
  | setLimitExceeded trace limitExceeded => s.setLimitExceeded trace limitExceeded
  | remove trace => (s.remove trace).1
  | defer trace times => s.defer trace times
  | failWith message => s.failWith message
  | clearFailure => s.clearFailure
  | call ids => (s.batch ids).2

/-- The ids that a call asks for. -/
def asked? : Operation → Option (List TraceId)
  | call ids => some ids
  | _ => none

/-- The message that calls are to fail with from now on, or none when they are to be answered. -/
def failure? : Operation → Option (Option String)
  | failWith message => some (some message)
  | clearFailure => some none
  | _ => none

/-- The replies to an id, when the operation is a call that is answered. -/
def repliesTo (s : Store) (id : TraceId) : Operation → List Reply
  | call ids => if s.failure = none then s.repliesTo ids id else []
  | _ => []

/-- An operation is logged if it is a call. -/
theorem requests_perform (s : Store) (op : Operation) :
    (op.perform s).requests = s.requests ++ op.asked?.toList := by
  cases op with
  | call ids =>
      cases hf : s.failure with
      | none => exact (batch_answered hf ids).2.2
      | some message => exact congrArg (fun x => x.2.requests) (batch_failing hf ids)
  | _ => exact (List.append_nil _).symm

/-- Only the operations for failures decide whether calls fail from now on. -/
theorem failure_perform (s : Store) (op : Operation) :
    (op.perform s).failure = op.failure?.getD s.failure := by
  cases op with
  | call ids =>
      cases hf : s.failure with
      | none => exact (batch_answered hf ids).2.1.failure.trans hf
      | some message => exact (congrArg (fun x => x.2.failure) (batch_failing hf ids)).trans hf
  | _ => rfl

/-- The counter of an id goes down by the replies to it, unless it is set. -/
theorem pending_perform {op : Operation} (hop : ∀ n, op ≠ .defer id n) (s : Store) :
    (op.perform s).pending id = s.pending id - (op.repliesTo s id).length := by
  cases op with
  | call ids =>
      simp only [perform, repliesTo]
      split
      next hf => rw [length_repliesTo, (batch_answered hf ids).2.1.pending]
      next hf =>
        obtain ⟨message, hmessage⟩ := Option.ne_none_iff_exists'.mp hf
        rw [batch_failing hmessage]
        rfl
  | defer trace times =>
      have hne : trace ≠ id := fun heq => hop times (heq ▸ rfl)
      simp only [perform, Store.defer, pending, Table.get?_insert_of_ne _ _ hne]
      rfl
  | _ => rfl

/-- While an operation is performed, exactly the first replies to an id put off. -/
theorem putOffFirst_repliesTo (s : Store) (op : Operation) (id : TraceId) :
    PutOffFirst (s.pending id) (op.repliesTo s id) := by
  cases op with
  | call ids =>
      simp only [repliesTo]
      split
      · exact Store.putOffFirst_repliesTo ids s id
      · exact .nil _
  | _ => exact .nil _

end Operation

/-! ### Histories -/

/-- The store after operations, one after the other. -/
def after (s : Store) (ops : List Operation) : Store := ops.foldl Operation.perform s

/-- The replies to an id in the calls that are answered, while operations are performed. -/
def lookups (s : Store) (id : TraceId) : List Operation → List Reply
  | [] => []
  | op :: rest => op.repliesTo s id ++ (op.perform s).lookups id rest

/-- The log holds the calls that were made, in order. -/
theorem requests_after (s : Store) (ops : List Operation) :
    (s.after ops).requests = s.requests ++ ops.filterMap Operation.asked? := by
  induction ops generalizing s with
  | nil => exact (List.append_nil _).symm
  | cons op rest ih =>
      have hrest : (s.after (op :: rest)).requests = ((op.perform s).after rest).requests := rfl
      rw [hrest, ih, op.requests_perform, List.append_assoc]
      cases hasked : op.asked? <;> simp [hasked]

/-- The last of the operations for failures decides whether calls fail. -/
theorem failure_after (s : Store) (ops : List Operation) :
    (s.after ops).failure = (ops.filterMap Operation.failure?).getLast?.getD s.failure := by
  induction ops generalizing s with
  | nil => rfl
  | cons op rest ih =>
      have hrest : (s.after (op :: rest)).failure = ((op.perform s).after rest).failure := rfl
      rw [hrest, ih, op.failure_perform]
      cases hset : op.failure? with
      | none => rw [List.filterMap_cons_none hset]; rfl
      | some message =>
          rw [List.filterMap_cons_some hset, List.getLast?_cons]
          rfl

/-- While an id is not put off anew, exactly its first look-ups are put off, as many as its counter
says. -/
theorem putOffFirst_lookups (ops : List Operation) :
    ∀ s : Store, (∀ n, .defer id n ∉ ops) → PutOffFirst (s.pending id) (s.lookups id ops) := by
  induction ops with
  | nil => exact fun s _ => .nil _
  | cons op rest ih =>
      intro s hops
      have hop : ∀ n, op ≠ .defer id n := fun n heq => hops n (heq ▸ List.mem_cons_self)
      have hrest := ih (op.perform s) fun n hmem => hops n (List.mem_cons_of_mem op hmem)
      rw [Operation.pending_perform hop] at hrest
      exact (op.putOffFirst_repliesTo s id).append hrest

/-- What is known of a store by what was done with it. -/
structure Account (s : Store) (ops : List Operation) : Prop where
  /-- Every call is logged, whether it fails or is answered, and nothing else is. -/
  log : (s.after ops).requests = s.requests ++ ops.filterMap Operation.asked?
  /-- Calls are to fail with the message that was set last, unless that was cleared. -/
  failure : (s.after ops).failure = (ops.filterMap Operation.failure?).getLast?.getD s.failure
  /-- A call that is to fail does so, and but for the log it changes nothing. -/
  failing : ∀ ids message, (s.after ops).failure = some message →
    (s.after ops).batch ids = (.error ⟨message, none⟩,
      { s.after ops with requests := (s.after ops).requests ++ [ids] })
  /-- Any other call gives one reply to each id, in their order, and holds the same traces after it
  as before. -/
  answered : ∀ ids, (s.after ops).failure = none →
    ((s.after ops).batch ids).1 = .ok (.ofReplies ((s.after ops).replies ids)) ∧
      ((s.after ops).replies ids).map Prod.fst = ids ∧
      (∀ p ∈ (s.after ops).replies ids, p.2.Says (s.after ops) p.1) ∧
      ((s.after ops).batch ids).2.traces = (s.after ops).traces
  /-- Until an id is put off at all, its counter is the one at the start. -/
  start : ∀ id, (∀ n, .defer id n ∉ ops) → PutOffFirst (s.pending id) (s.lookups id ops)
  /-- From then on exactly its next look-ups are put off, as many as it was put off for, until it is
  put off anew. -/
  deferred : ∀ before id n between, ops = before ++ .defer id n :: between →
    (∀ m, .defer id m ∉ between) →
      PutOffFirst n ((s.after (before ++ [.defer id n])).lookups id between)

/-- Every history of a store has its account. -/
theorem account_after (s : Store) (ops : List Operation) : s.Account ops where
  log := requests_after s ops
  failure := failure_after s ops
  failing ids _ h := batch_failing h ids
  answered ids h :=
    have hcall := batch_answered h ids
    ⟨hcall.1, map_fst_replies ids _, says_of_mem_replies ids, hcall.2.1.traces⟩
  start _ h := putOffFirst_lookups ops s h
  deferred before id n between _ hbetween := by
    have hset : (s.after (before ++ [.defer id n])).pending id = n := by
      simp [after, Operation.perform, Store.defer, pending]
    have hfirst := putOffFirst_lookups between (s.after (before ++ [.defer id n])) hbetween
    rwa [hset] at hfirst

/-- An id that stands twice in a call is looked up twice, and a call that fails looks nothing up. -/
example : empty.lookups ⟨"1-a"⟩ [.defer ⟨"1-a"⟩ 3, .call [⟨"1-a"⟩, ⟨"1-b"⟩], .failWith "down",
    .call [⟨"1-a"⟩], .clearFailure, .remove ⟨"1-a"⟩, .call [⟨"1-a"⟩, ⟨"1-a"⟩, ⟨"1-a"⟩]]
      = [.putOff, .putOff, .putOff, .unknown] := rfl

end Store

end CausalTrace
