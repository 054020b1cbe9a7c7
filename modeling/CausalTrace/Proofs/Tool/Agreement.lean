import CausalTrace.Proofs.Assembly.Deepening
import CausalTrace.Proofs.Polling.Waiting
import CausalTrace.Tool.Plan

/-!
# Asking once and polling

The tool has a tree at once or polls for it.  The two ways share neither the loop nor the code that
looks at the number of paths, and agree all the same: what is answered at once is answered by
polling, by the same calls, and a failure that waiting does not cure is the same failure.

## Main definitions

* `Store.Beside` — a store that lies in a state beside a clock
* `Tool.Request.atOnce`, `Tool.Request.polledFor` — a request, asked in either way
* `Tool.Request.treeKept` — polling that knows the tree from the check only
* `Tool.Request.Agrees` — what the two ways have in common

## Main statements

* `Timed.coupled_lookup` — a clock beside a backend changes no answer
* `Tool.Request.objection?_eq_none_iff` — the trees that are shown
* `Tool.Request.tree_eq_treeKept` — the tree that the check keeps is the tree that is shown
* `Tool.Request.agrees` — both ways agree, for every store and every clock

## Design notes

Only the first attempt of polling is made from the state of the store that is asked once, so that
nothing is asked of the clock but that reading it leaves the store alone.  What happens to the store
while polling sleeps is left open.
-/

namespace CausalTrace

variable {σ : Type}

/-- A store that lies in a state beside a clock: reading the clock leaves it as it is, and it
answers the batch calls. -/
structure Store.Beside (clock : Clock σ) (l : Lookup σ) (view : σ → Store) : Prop where
  now : ∀ s, view (clock.now s).2 = view s
  batch : ∀ ids s, (l.backend.batch ids s).1 = (Store.batch ids (view s)).1 ∧
    view (l.backend.batch ids s).2 = (Store.batch ids (view s)).2

/-- Traces are looked up as if there were no clock. -/
theorem Timed.coupled_lookup (l : Lookup σ) :
    Lookup.Coupled (fun s s' => s'.state = s) (fun t u => u = t) l (Timed.lookup l) := by
  refine Lookup.coupled_of_same ?_ rfl
  rintro ids _ s rfl
  exact ⟨rfl, rfl⟩

/-- The store of a state with a clock of its own lies beside the clock. -/
theorem Timed.beside : Store.Beside Timed.clock (Timed.lookup Tool.storeLookup) Timed.state :=
  ⟨fun _ => rfl, fun _ _ => ⟨rfl, rfl⟩⟩

namespace Tree

/-- The tree of a text that is no header is asked of no backend. -/
theorem ofHeaderText_malformed {text : String} {e : HeaderError}
    (h : Header.parse text = .error e) (l : Lookup σ) (options : Options) (s : σ) :
    ofHeaderText l text options s = (.error (.malformedHeader e), s) := by
  unfold ofHeaderText Header.read
  rw [h]
  rfl

/-- The header of a tree can be read. -/
theorem parse_of_ofHeaderText {l : Lookup σ} {text : String} {options : Options} {s s' : σ}
    {t : Tree} (h : ofHeaderText l text options s = (.ok t, s')) :
    ∃ header, Header.parse text = .ok header := by
  cases hparse : Header.parse text with
  | ok header => exact ⟨header, rfl⟩
  | error e =>
      rw [ofHeaderText_malformed hparse] at h
      cases h

/-- The tree of a header depends on the store only. -/
theorem ofHeaderText_beside {clock : Clock σ} {l : Lookup σ} {view : σ → Store}
    (hview : Store.Beside clock l view) (text : String) (options : Options) {s s' : σ}
    (hs : view s' = view s) :
    (ofHeaderText l text options s').1 = (ofHeaderText l text options s).1 ∧
      view (ofHeaderText l text options s').2 = view (ofHeaderText l text options s).2 := by
  have hcoupled : Lookup.Coupled (fun s s' => view s' = view s) (fun t u => u = t) l l := by
    refine Lookup.coupled_of_same (fun ids s s' hs => ?_) rfl
    obtain ⟨hanswer, hstate⟩ := hview.batch ids s
    obtain ⟨hanswer', hstate'⟩ := hview.batch ids s'
    exact ⟨by rw [hanswer', hs, hanswer], by rw [hstate', hs, hstate]⟩
  cases hparse : Header.parse text with
  | error e =>
      rw [ofHeaderText_malformed hparse, ofHeaderText_malformed hparse]
      exact ⟨rfl, hs⟩
  | ok header =>
      rw [ofHeaderText_eq hparse]
      exact build_same hcoupled header options hs

/-- The first attempt of polling, which comes after the clock is read, has what is had at once. -/
theorem exists_first {clock : Clock σ} {l : Lookup σ} {view : σ → Store}
    (hview : Store.Beside clock l view) {text : String} {options : Options} (check : Check σ Tree)
    {header : Header} (hparse : Header.parse text = .ok header) {s s' : σ}
    {x : Except Failure Tree} (h : ofHeaderText l text options s = (x, s')) :
    ∃ s₁, (job l header options check).produce (clock.now s).2 = (x, s₁) ∧
      view s₁ = view s' := by
  obtain ⟨hsame, hstate⟩ := ofHeaderText_beside hview text options (hview.now s)
  rw [h, ofHeaderText_eq hparse] at hsame hstate
  exact ⟨(build l header options (clock.now s).2).2, Prod.ext hsame rfl, hstate⟩

/-- A header that can be read, and a timeout that is one, are a target. -/
theorem exists_readTarget {text : String} {header : Header} (h : Header.parse text = .ok header)
    {seconds : Float} (hseconds : ¬ (seconds.isNaN = true ∨ seconds < 0.0)) :
    ∃ timeout, readTarget text seconds = .ok (header, timeout) := by
  cases htimeout : Timeout.ofSeconds? seconds with
  | none => exact absurd (Timeout.ofSeconds?_eq_none_iff.mp htimeout) hseconds
  | some timeout => exact ⟨timeout, readTarget_ok h htimeout⟩

end Tree

namespace Tool.Request

/-! ### Trees that are shown -/

/-- The request, asked once. -/
def atOnce (r : Request) : Request := { r with timeout := none }

/-- The request, polled for a number of seconds. -/
def polledFor (r : Request) (seconds : Float) : Request := { r with timeout := some seconds }

variable (r : Request)

/-- Nothing is wrong with a tree that has as many paths as are expected, if that is said. -/
theorem objection?_eq_none_iff (t : Tree) :
    r.objection? t = none ↔ ∀ n ∈ r.expectPaths, t.leafCount = n := by
  unfold objection?
  cases r.expectPaths with
  | none => simp
  | some n => by_cases hn : t.leafCount = n <;> simp [hn]

/-- Nothing is wrong with the number of paths just when the check accepts the tree. -/
theorem check_eq_none_iff (t : Tree) (s : σ) :
    (r.check t s).1 = none ↔ r.objection? t = none := Option.map_eq_none_iff

theorem check_of_objection? {t : Tree} (h : r.objection? t = none) (s : σ) :
    r.check t s = (none, s) :=
  congrArg (fun p => (p.map Problem.message, s)) h

/-- An objection is about the number of paths. -/
theorem objection?_ne_failed (t : Tree) (e : Failure) : r.objection? t ≠ some (.failed e) := by
  unfold objection?
  cases r.expectPaths with
  | none => simp
  | some n => by_cases hn : t.leafCount = n <;> simp [hn]

/-! ### Asking once -/

section

variable {r} {l : Lookup σ} {s s' : σ}

/-- A tree that is had at once is one that nothing is wrong with. -/
theorem treeOnce_ok {t : Tree} (h : r.treeOnce l s = (.ok t, s')) :
    Tree.ofHeaderText l r.header r.options s = (.ok t, s') ∧ r.objection? t = none := by
  unfold treeOnce at h
  rcases hof : Tree.ofHeaderText l r.header r.options s with ⟨e | u, s₁⟩
  · rw [hof] at h
    cases h
  · simp only [hof] at h
    cases hu : r.objection? u with
    | none =>
        rw [hu] at h
        cases h
        exact ⟨rfl, hu⟩
    | some p =>
        rw [hu] at h
        cases h

/-- What is had at once and nothing is wrong with is the tree. -/
theorem treeOnce_of_ok {t : Tree}
    (h : Tree.ofHeaderText l r.header r.options s = (.ok t, s')) (hright : r.objection? t = none) :
    r.treeOnce l s = (.ok t, s') := by
  unfold treeOnce
  rw [h]
  simp only [hright]

/-- What fails at once fails when the tree is put together. -/
theorem treeOnce_failed {e : Failure} (h : r.treeOnce l s = (.error (.failed e), s')) :
    Tree.ofHeaderText l r.header r.options s = (.error e, s') := by
  unfold treeOnce at h
  rcases hof : Tree.ofHeaderText l r.header r.options s with ⟨e' | u, s₁⟩
  · rw [hof] at h
    cases h
    rfl
  · simp only [hof] at h
    cases hu : r.objection? u with
    | none =>
        rw [hu] at h
        cases h
    | some p =>
        rw [hu] at h
        cases h
        exact absurd hu (r.objection?_ne_failed u e)

end

/-! ### Polling -/

section

variable (clock : Clock σ) (l : Lookup σ) (baseDelay : Nat) {seconds : Float} (s : σ)

/-- Polling fails at once if the header or the timeout cannot be read. -/
theorem tree_of_unread {e : Failure} (h : Tree.readTarget r.header seconds = .error e) :
    (r.polledFor seconds).tree clock l baseDelay s = (.error (.failed e), s) := by
  have hreport := (Tree.awaitFor_error clock baseDelay l r.options r.check s h).1
  exact congrArg (fun report => (r.conclude seconds report.outcome, report.state)) hreport

/-- Otherwise polling ends as the run for the header does. -/
theorem tree_of_target {header : Header} {timeout : Timeout}
    (h : Tree.readTarget r.header seconds = .ok (header, timeout)) :
    (r.polledFor seconds).tree clock l baseDelay s
      = (r.conclude seconds (Polling.run clock ⟨timeout, baseDelay, none⟩
          (Tree.job l header r.options r.check) s).outcome,
        (Polling.run clock ⟨timeout, baseDelay, none⟩
          (Tree.job l header r.options r.check) s).state) := by
  have hreport : Tree.awaitFor clock baseDelay l r.header r.options r.check seconds s
      = Polling.run clock ⟨timeout, baseDelay, none⟩ (Tree.job l header r.options r.check) s := by
    unfold Tree.awaitFor
    rw [h]
    rfl
  exact congrArg (fun report => (r.conclude seconds report.outcome, report.state)) hreport

theorem conclude_eq_ok {outcome : Outcome Failure Tree} {t : Tree}
    (h : r.conclude seconds outcome = .ok t) : outcome = .accepted t := by
  cases outcome with
  | accepted u => exact congrArg Outcome.accepted (Except.ok.inj h)
  | timedOut => cases h
  | failed e => cases h
  | exhausted => cases h

/-- A tree that polling ends with is the tree of the last attempt, and the check accepted it. -/
theorem tree_polledFor {t : Tree}
    (h : ((r.polledFor seconds).tree clock l baseDelay s).1 = .ok t) :
    ∃ s₁ s₂, (Tree.triedFor clock baseDelay l r.header r.options r.check seconds s).getLast?
        = some s₁ ∧
      Tree.ofHeaderText l r.header r.options s₁ = (.ok t, s₂) ∧ (r.check t s₂).1 = none := by
  cases htarget : Tree.readTarget r.header seconds with
  | error e =>
      rw [tree_of_unread r clock l baseDelay s htarget] at h
      cases h
  | ok target =>
      obtain ⟨header, timeout⟩ := target
      obtain ⟨hparse, -⟩ := Tree.readTarget_eq_ok htarget
      have hconcluded := Tree.awaitFor_ok clock baseDelay l r.options r.check s htarget
      rw [Tree.ofHeaderText_eq hparse]
      exact (hconcluded.accepted_iff t).mp (r.conclude_eq_ok h)

end

section

variable {clock : Clock σ} {l : Lookup σ} {view : σ → Store} {s s' : σ}
  (hview : Store.Beside clock l view)
  {seconds : Float} (hseconds : ¬ (seconds.isNaN = true ∨ seconds < 0.0)) (baseDelay : Nat)

include hview hseconds in
/-- A tree that is had at once, and that nothing is wrong with, is the first that polling has. -/
theorem tree_of_ok {t : Tree} (h : Tree.ofHeaderText l r.header r.options s = (.ok t, s'))
    (hright : r.objection? t = none) :
    ∃ s₁, (r.polledFor seconds).tree clock l baseDelay s = (.ok t, s₁) ∧ view s₁ = view s' := by
  obtain ⟨header, hparse⟩ := Tree.parse_of_ofHeaderText h
  obtain ⟨timeout, htarget⟩ := Tree.exists_readTarget hparse hseconds
  obtain ⟨s₁, hproduce, hstate⟩ := Tree.exists_first hview r.check hparse h
  rw [tree_of_target r clock l baseDelay s htarget,
    Polling.run_of_accepted hproduce (r.check_of_objection? hright s₁)]
  exact ⟨s₁, rfl, hstate⟩

include hview hseconds in
/-- A failure that waiting does not cure is the first that polling meets. -/
theorem tree_of_failed {e : Failure}
    (h : Tree.ofHeaderText l r.header r.options s = (.error e, s')) (he : e.isTransient = false) :
    ∃ s₁, (r.polledFor seconds).tree clock l baseDelay s = (.error (.failed e), s₁) ∧
      view s₁ = view s' := by
  cases hparse : Header.parse r.header with
  | error e' =>
      rw [Tree.ofHeaderText_malformed hparse] at h
      cases h
      exact ⟨s, tree_of_unread r clock l baseDelay s (Tree.readTarget_malformed hparse seconds),
        rfl⟩
  | ok header =>
      obtain ⟨timeout, htarget⟩ := Tree.exists_readTarget hparse hseconds
      obtain ⟨s₁, hproduce, hstate⟩ := Tree.exists_first hview r.check hparse h
      rw [tree_of_target r clock l baseDelay s htarget, Polling.run_of_failed hproduce he]
      exact ⟨s₁, rfl, hstate⟩

end

/-- The tree that is polled for, where polling does not hand the tree on: the check keeps the tree
that it accepts. -/
def treeKept (r : Request) (clock : Clock σ) (l : Lookup σ) (baseDelay : Nat) (seconds : Float)
    (s : σ) : Except Problem Tree × σ :=
  match Tree.readTarget r.header seconds with
  | .error e => (.error (.failed e), s)
  | .ok (header, timeout) =>
    let report := Polling.run clock.noted ⟨timeout, baseDelay, none⟩
      (Tree.job l header r.options r.check).keeping (s, none)
    let tree := match report.outcome, report.state.2 with
      | .failed e, _ => .error (.failed e)
      | .accepted _, some t => .ok t
      | _, _ => .error (.noMatch r.header seconds)
    (tree, report.state.1)

/-- The tree that the check keeps is the tree that polling ends with. -/
theorem tree_eq_treeKept (clock : Clock σ) (l : Lookup σ) (baseDelay : Nat) (seconds : Float)
    (s : σ) : (r.polledFor seconds).tree clock l baseDelay s
      = r.treeKept clock l baseDelay seconds s := by
  unfold treeKept
  cases htarget : Tree.readTarget r.header seconds with
  | error e => exact tree_of_unread r clock l baseDelay s htarget
  | ok target =>
      obtain ⟨header, timeout⟩ := target
      rw [tree_of_target r clock l baseDelay s htarget]
      simp only [Polling.run_keeping]
      -- only the outcome of the run matters from here on: a tree is kept just when it is accepted
      generalize Polling.run clock ⟨timeout, baseDelay, none⟩
        (Tree.job l header r.options r.check) s = report
      obtain ⟨outcome, events, state⟩ := report
      cases outcome <;> rfl

/-! ### Both ways -/

/-- What asking once and polling for some seconds have in common, for a store that lies in a
state. -/
structure Agrees (r : Request) (clock : Clock σ) (l : Lookup σ) (view : σ → Store)
    (baseDelay : Nat) (seconds : Float) (s : σ) : Prop where
  /-- What is answered at once is answered by polling, and leaves the store with the same log of
  calls. -/
  answered : ∀ text, (r.atOnce.answer clock l baseDelay s).1 = .ok text →
    ((r.polledFor seconds).answer clock l baseDelay s).1 = .ok text ∧
      view ((r.polledFor seconds).answer clock l baseDelay s).2
        = view (r.atOnce.answer clock l baseDelay s).2
  /-- So is a failure that waiting does not cure. -/
  failed : ∀ e, (r.atOnce.answer clock l baseDelay s).1 = .error (.failed e) →
    e.isTransient = false →
    ((r.polledFor seconds).answer clock l baseDelay s).1 = .error (.failed e) ∧
      view ((r.polledFor seconds).answer clock l baseDelay s).2
        = view (r.atOnce.answer clock l baseDelay s).2
  /-- What is shown at once is the tree of the header, with as many paths as are expected. -/
  shownAtOnce : ∀ text, (r.atOnce.answer clock l baseDelay s).1 = .ok text →
    ∃ t s₁, Tree.ofHeaderText l r.header r.options s = (.ok t, s₁) ∧
      (∀ n ∈ r.expectPaths, t.leafCount = n) ∧ text = r.present t
  /-- What polling shows is the tree of the last attempt, which the check accepted and which has as
  many paths as are expected. -/
  shownPolled : ∀ text, ((r.polledFor seconds).answer clock l baseDelay s).1 = .ok text →
    ∃ t s₁ s₂, (Tree.triedFor clock baseDelay l r.header r.options r.check seconds s).getLast?
        = some s₁ ∧
      Tree.ofHeaderText l r.header r.options s₁ = (.ok t, s₂) ∧ (r.check t s₂).1 = none ∧
      (∀ n ∈ r.expectPaths, t.leafCount = n) ∧ text = r.present t
  /-- The check knows the tree that polling shows. -/
  kept : (r.polledFor seconds).tree clock l baseDelay s = r.treeKept clock l baseDelay seconds s

section

variable {r} {clock : Clock σ} {l : Lookup σ} {baseDelay : Nat} {s : σ}

/-- What is answered is the tree, presented as the request asks for. -/
theorem answer_ok {text : String} (h : (r.answer clock l baseDelay s).1 = .ok text) :
    ∃ t, (r.tree clock l baseDelay s).1 = .ok t ∧ text = r.present t := by
  unfold answer at h
  rcases htree : r.tree clock l baseDelay s with ⟨p | t, s'⟩
  · rw [htree] at h
    cases h
  · rw [htree] at h
    exact ⟨t, rfl, (Except.ok.inj h).symm⟩

/-- What is answered at once is the tree of the header, if nothing is wrong with it. -/
theorem answer_atOnce_ok {text : String}
    (h : (r.atOnce.answer clock l baseDelay s).1 = .ok text) :
    ∃ t, Tree.ofHeaderText l r.header r.options s
        = (.ok t, (r.atOnce.answer clock l baseDelay s).2) ∧
      r.objection? t = none ∧ text = r.present t := by
  obtain ⟨t, ht, rfl⟩ := answer_ok h
  have honce : r.treeOnce l s = (.ok t, (r.treeOnce l s).2) := Prod.ext ht rfl
  obtain ⟨hof, hright⟩ := treeOnce_ok honce
  exact ⟨t, hof, hright, rfl⟩

/-- An answer that is a failure is that of the tree. -/
theorem answer_failed {e : Failure}
    (h : (r.answer clock l baseDelay s).1 = .error (.failed e)) :
    (r.tree clock l baseDelay s).1 = .error (.failed e) := by
  unfold answer at h
  rcases htree : r.tree clock l baseDelay s with ⟨p | t, s'⟩
  · rw [htree] at h
    exact congrArg Except.error (Except.error.inj h)
  · rw [htree] at h
    cases h

theorem answer_of_tree {x : Except Problem Tree} {s' : σ}
    (h : r.tree clock l baseDelay s = (x, s')) :
    r.answer clock l baseDelay s = (x.map r.present, s') := by
  unfold answer
  rw [h]

end

/-- Asking once and polling agree, whatever the clock, for a store that lies beside it. -/
theorem agrees {clock : Clock σ} {l : Lookup σ} {view : σ → Store}
    (hview : Store.Beside clock l view) {seconds : Float}
    (hseconds : ¬ (seconds.isNaN = true ∨ seconds < 0.0)) (baseDelay : Nat) (s : σ) :
    r.Agrees clock l view baseDelay seconds s where
  answered text h := by
    obtain ⟨t, hof, hright, rfl⟩ := answer_atOnce_ok h
    obtain ⟨s₁, hpolled, hstate⟩ := r.tree_of_ok hview hseconds baseDelay hof hright
    rw [answer_of_tree hpolled]
    exact ⟨rfl, hstate⟩
  failed e h he := by
    have honce : r.treeOnce l s = (.error (.failed e), (r.treeOnce l s).2) :=
      Prod.ext (answer_failed h) rfl
    obtain ⟨s₁, hpolled, hstate⟩ :=
      r.tree_of_failed hview hseconds baseDelay (treeOnce_failed honce) he
    rw [answer_of_tree hpolled]
    exact ⟨rfl, hstate⟩
  shownAtOnce text h := by
    obtain ⟨t, hof, hright, rfl⟩ := answer_atOnce_ok h
    exact ⟨t, _, hof, (r.objection?_eq_none_iff t).mp hright, rfl⟩
  shownPolled text h := by
    obtain ⟨t, ht, rfl⟩ := answer_ok h
    obtain ⟨s₁, s₂, hlast, hof, hcheck⟩ := r.tree_polledFor clock l baseDelay s ht
    have hright := (r.check_eq_none_iff t s₂).mp hcheck
    exact ⟨t, s₁, s₂, hlast, hof, hcheck, (r.objection?_eq_none_iff t).mp hright, rfl⟩
  kept := r.tree_eq_treeKept clock l baseDelay seconds s

end Tool.Request

namespace Store.Sample

/-- A request for the tree of the second trace, which has one path. -/
def request : Tool.Request :=
  { header := "Root=1-b;Sampled=1", options := options, expectPaths := some 1 }

theorem treeOnce_request :
    (request.treeOnce (Timed.lookup Tool.storeLookup) ⟨store, 0⟩).1 = .ok calleeTree := by
  have hbuild : (Tree.build (Timed.lookup Tool.storeLookup) (Header.ofRoot ⟨"1-b"⟩) options
        ⟨store, 0⟩).1
      = (Tree.build ⟨backend, 10⟩ (Header.ofRoot ⟨"1-b"⟩) options store).1 :=
    (Tree.build_same (Timed.coupled_lookup Tool.storeLookup) _ _ rfl).1
  have hparse : Header.parse request.header = .ok (Header.ofRoot ⟨"1-b"⟩) := rfl
  rw [build_callee, ← Tree.ofHeaderText_eq hparse] at hbuild
  have hright : request.objection? calleeTree = none := rfl
  exact congrArg Prod.fst (Tool.Request.treeOnce_of_ok (Prod.ext hbuild rfl) hright)

end Store.Sample

open Store.Sample in
/-- A request that is answered at once and polled for alike. -/
theorem Tool.Request.agrees_sample :
    Store.Beside Timed.clock (Timed.lookup storeLookup) Timed.state ∧
      ¬ ((1.5 : Float).isNaN = true ∨ (1.5 : Float) < 0.0) ∧
      ((request.polledFor 1.5).answer Timed.clock (Timed.lookup storeLookup) 100 ⟨store, 0⟩).1
        = .ok (request.present calleeTree) := by
  have hseconds : ¬ ((1.5 : Float).isNaN = true ∨ (1.5 : Float) < 0.0) := by decide
  have honce : (request.atOnce.answer Timed.clock (Timed.lookup storeLookup) 100 ⟨store, 0⟩).1
      = .ok (request.present calleeTree) :=
    congrArg (Except.map request.present) treeOnce_request
  exact ⟨Timed.beside, hseconds,
    ((request.agrees Timed.beside hseconds 100 ⟨store, 0⟩).answered _ honce).1⟩

end CausalTrace
