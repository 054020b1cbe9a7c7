import CausalTrace.Assembly.Splice
import CausalTrace.Proofs.Backend.Lookup

/-!
# The steps of an assembly

What following a link and entering a trace can do, as case distinctions with named cases.  Nothing
else opens the definitions of `Assembly.follow`, `Assembly.followAll`, `Assembly.enter` and
`Assembly.splice`.

## Main definitions

* `Assembly.Obtains` — a trace is had, remembered or looked up
* `Assembly.FollowStep` — the outcomes of following one link

## Main statements

* `Assembly.follow_step` — following a link has one of these outcomes
* `Assembly.enter_ok`, `Assembly.enter_error` — entering a trace
* `Assembly.Respected.splice` — what every step respects holds across a run, however it ends
* `Assembly.respected_frame`, `Assembly.respected_sound` — what a run leaves as it is

## Design notes

A frame speaks of the segments at the nodes and not of their children, because following a link
changes the children of the node that holds it.
-/

namespace CausalTrace.Assembly

variable {σ : Type} {l : Lookup σ} {options : Options}

/-! ### Following a link -/

/-- A trace is had for a target: it is remembered, or it is looked up and remembered. -/
inductive Obtains (l : Lookup σ) (target : TraceId) (a : Assembly σ) : Trace → Assembly σ → Prop
  | known (t : Trace) : a.childTraces.get? target = some t → Obtains l target a t a
  | found (t : Trace) (s : σ) : a.childTraces.get? target = none →
      l.trace target a.backend = (.ok t, s) →
      Obtains l target a t
        { a with backend := s, childTraces := a.childTraces.insert target t }

/-- Obtaining a trace changes the backend and what is remembered only. -/
theorem Obtains.same {target : TraceId} {t : Trace} {a a' : Assembly σ}
    (ho : Obtains l target a t a') :
    a'.chain = a.chain ∧ a'.nodes = a.nodes ∧ a'.unresolved = a.unresolved ∧
      a'.linkLimitExceeded = a.linkLimitExceeded := by
  cases ho <;> exact ⟨rfl, rfl, rfl, rfl⟩

/-- A trace that is obtained is remembered under its target. -/
theorem Obtains.remembered {target : TraceId} {t : Trace} {a a' : Assembly σ}
    (ho : Obtains l target a t a') : a'.childTraces.get? target = some t := by
  cases ho with
  | known hk => exact hk
  | found s _ _ => exact Table.get?_insert_self _ _ _

/-- Nothing but the target is newly remembered. -/
theorem Obtains.keys {target : TraceId} {t : Trace} {a a' : Assembly σ}
    (ho : Obtains l target a t a') (id : TraceId) :
    (∃ u, a'.childTraces.get? id = some u) ↔
      (∃ u, a.childTraces.get? id = some u) ∨ id = target := by
  cases ho with
  | known hk =>
      refine ⟨.inl, ?_⟩
      rintro (h | rfl)
      · exact h
      · exact ⟨t, hk⟩
  | found s _ _ =>
      simp only [Table.get?_insert]
      by_cases h : target = id
      · simp [h]
      · simp [h, Ne.symm h]

/-- The outcomes of following one link. -/
inductive FollowStep (l : Lookup σ) (deeper : Option (Trace → Action (Assembly σ) Nat))
    (holder : Nat) (s : Segment) (target : TraceId) (a : Assembly σ) :
    Except Failure Unit → Assembly σ → Prop
  /-- The target is being entered already. -/
  | cycle : target ∈ a.chain →
      FollowStep l deeper holder s target a (.error (.linkCycle target a.chain)) a
  /-- No further level may be entered. -/
  | tooDeep : target ∉ a.chain → deeper = none →
      FollowStep l deeper holder s target a (.ok ())
        { a with
          unresolved := a.unresolved ++ [⟨s.id, target, .depthLimit⟩]
          linkLimitExceeded := true }
  /-- The target is not there. -/
  | missing (enter : Trace → Action (Assembly σ) Nat) (id : TraceId) (st : σ) :
      target ∉ a.chain → deeper = some enter → a.childTraces.get? target = none →
      l.trace target a.backend = (.error (.traceNotFound id), st) →
      FollowStep l deeper holder s target a (.ok ())
        { a with
          backend := st
          unresolved := a.unresolved ++ [⟨s.id, target, .notFound⟩] }
  /-- Looking the target up fails for another reason. -/
  | lookupFails (enter : Trace → Action (Assembly σ) Nat) (e : Failure) (st : σ) :
      target ∉ a.chain → deeper = some enter → a.childTraces.get? target = none →
      l.trace target a.backend = (.error e, st) → (∀ id, e ≠ .traceNotFound id) →
      FollowStep l deeper holder s target a (.error e) { a with backend := st }
  /-- Entering the target fails. -/
  | enterFails (enter : Trace → Action (Assembly σ) Nat) (t : Trace) (a₁ : Assembly σ)
      (e : Failure) (a₂ : Assembly σ) : target ∉ a.chain → deeper = some enter →
      Obtains l target a t a₁ → enter t a₁ = (.error e, a₂) →
      FollowStep l deeper holder s target a (.error e) a₂
  /-- The target is entered and put below the holder. -/
  | entered (enter : Trace → Action (Assembly σ) Nat) (t : Trace) (a₁ : Assembly σ)
      (child : Nat) (a₂ : Assembly σ) : target ∉ a.chain → deeper = some enter →
      Obtains l target a t a₁ → enter t a₁ = (.ok child, a₂) →
      FollowStep l deeper holder s target a (.ok ())
        { a₂ with nodes := Arena.attach a₂.nodes holder child }

/-- The trace for a target is had, or it is not there, or looking it up fails. -/
theorem childTrace?_cases (l : Lookup σ) (target : TraceId) (a : Assembly σ) :
    (∃ t a₁, childTrace? l target a = (.ok (some t), a₁) ∧ Obtains l target a t a₁) ∨
    (∃ id s, childTrace? l target a = (.ok none, { a with backend := s }) ∧
      a.childTraces.get? target = none ∧
      l.trace target a.backend = (.error (.traceNotFound id), s)) ∨
    (∃ e s, childTrace? l target a = (.error e, { a with backend := s }) ∧
      a.childTraces.get? target = none ∧ l.trace target a.backend = (.error e, s) ∧
      ∀ id, e ≠ .traceNotFound id) := by
  unfold childTrace? lookup Action.within
  cases hg : a.childTraces.get? target with
  | some t => exact .inl ⟨t, a, rfl, .known t hg⟩
  | none =>
      rcases ht : l.trace target a.backend with ⟨r, s⟩
      cases r with
      | ok t => exact .inl ⟨t, _, rfl, .found t s hg ht⟩
      | error e =>
          right
          cases e with
          | traceNotFound id => exact .inl ⟨id, s, rfl, rfl, rfl⟩
          | _ => exact .inr ⟨_, s, rfl, rfl, rfl, by simp⟩

theorem leave_depthLimit (s : Segment) (target : TraceId) (a : Assembly σ) :
    leave s target .depthLimit a = (.ok (), { a with
      unresolved := a.unresolved ++ [⟨s.id, target, .depthLimit⟩]
      linkLimitExceeded := true }) := by
  simp [leave, Action.modify]

theorem leave_notFound (s : Segment) (target : TraceId) (a : Assembly σ) :
    leave s target .notFound a = (.ok (), { a with
      unresolved := a.unresolved ++ [⟨s.id, target, .notFound⟩] }) := by
  have hb : (UnresolvedReason.notFound == UnresolvedReason.depthLimit) = false := rfl
  simp [leave, Action.modify, hb]

/-- Following a link, case by case. -/
theorem follow_eq (deeper : Option (Trace → Action (Assembly σ) Nat)) (holder : Nat) (s : Segment)
    (target : TraceId) (a : Assembly σ) :
    follow l deeper holder s target a =
      if target ∈ a.chain then (.error (.linkCycle target a.chain), a)
      else
        match deeper with
        | none => leave s target .depthLimit a
        | some enter =>
          match childTrace? l target a with
          | (.error e, a₁) => (.error e, a₁)
          | (.ok none, a₁) => leave s target .notFound a₁
          | (.ok (some t), a₁) =>
            match enter t a₁ with
            | (.error e, a₂) => (.error e, a₂)
            | (.ok child, a₂) => attach holder child a₂ := by
  unfold follow
  simp only [Action.bind_apply, Action.get, List.contains_iff_mem]
  split
  · rfl
  · cases deeper with
    | none => rfl
    | some enter =>
        simp only [Action.bind_apply]
        rcases childTrace? l target a with ⟨e | _ | t, a₁⟩
        · rfl
        · rfl
        · simp only [Action.bind_apply]
          rcases enter t a₁ with ⟨e | child, a₂⟩
          · rfl
          · rfl

/-- Following a link has one of its outcomes. -/
theorem follow_step {deeper : Option (Trace → Action (Assembly σ) Nat)} {holder : Nat}
    {s : Segment} {target : TraceId} {a a' : Assembly σ} {r : Except Failure Unit}
    (h : follow l deeper holder s target a = (r, a')) :
    FollowStep l deeper holder s target a r a' := by
  rw [follow_eq] at h
  split at h
  · next hc =>
      cases h
      exact .cycle hc
  · next hc =>
      cases deeper with
      | none =>
          simp only [leave_depthLimit] at h
          cases h
          exact .tooDeep hc rfl
      | some enter =>
          rcases childTrace?_cases l target a with
            ⟨t, a₁, hf, ho⟩ | ⟨id, st, hf, hg, ht⟩ | ⟨e, st, hf, hg, ht, he⟩
          · simp only [hf] at h
            rcases hn : enter t a₁ with ⟨rn, a₂⟩
            rw [hn] at h
            cases rn with
            | error e =>
                cases h
                exact .enterFails enter t a₁ e _ hc rfl ho hn
            | ok child =>
                cases h
                exact .entered enter t a₁ child a₂ hc rfl ho hn
          · simp only [hf, leave_notFound] at h
            cases h
            exact .missing enter id st hc rfl hg ht
          · simp only [hf] at h
            cases h
            exact .lookupFails enter e st hc rfl hg ht he

/-- A trace that is obtained is the one that is had for the target. -/
theorem Obtains.eq {target : TraceId} {t : Trace} {a a' : Assembly σ}
    (ho : Obtains l target a t a') : childTrace? l target a = (.ok (some t), a') := by
  unfold childTrace? lookup Action.within
  cases ho with
  | known hk => rw [hk]
  | found s hnone ht => simp only [hnone, ht]

/-- Each outcome is the result of following the link. -/
theorem FollowStep.eq {deeper : Option (Trace → Action (Assembly σ) Nat)} {holder : Nat}
    {s : Segment} {target : TraceId} {a a' : Assembly σ} {r : Except Failure Unit}
    (h : FollowStep l deeper holder s target a r a') :
    follow l deeper holder s target a = (r, a') := by
  rw [follow_eq]
  cases h with
  | cycle hc => rw [if_pos hc]
  | tooDeep hc hd =>
      subst hd
      rw [if_neg hc]
      exact leave_depthLimit s target a
  | missing enter id st hc hd hnone ht =>
      subst hd
      rw [if_neg hc]
      unfold childTrace? lookup Action.within
      simp only [hnone, ht]
      exact leave_notFound s target _
  | lookupFails enter e st hc hd hnone ht he =>
      subst hd
      rw [if_neg hc]
      unfold childTrace? lookup Action.within
      simp only [hnone, ht]
  | enterFails enter t a₁ e a₂ hc hd ho hn =>
      subst hd
      rw [if_neg hc]
      simp only [ho.eq, hn]
  | entered enter t a₁ child a₂ hc hd ho hn =>
      subst hd
      rw [if_neg hc]
      simp only [ho.eq, hn]
      rfl

theorem followAll_nil (deeper : Option (Trace → Action (Assembly σ) Nat)) (a : Assembly σ) :
    followAll l deeper [] a = (.ok (), a) := rfl

/-- Links are followed if the first one is, and then the others. -/
theorem followAll_cons_ok {deeper : Option (Trace → Action (Assembly σ) Nat)} {holder : Nat}
    {s : Segment} {target : TraceId} {rest : List (Nat × Segment × TraceId)}
    {a a' : Assembly σ}
    (h : followAll l deeper ((holder, s, target) :: rest) a = (.ok (), a')) :
    ∃ a₁, FollowStep l deeper holder s target a (.ok ()) a₁ ∧
      followAll l deeper rest a₁ = (.ok (), a') := by
  rw [followAll, Action.bind_eq_ok] at h
  obtain ⟨u, a₁, hf, hr⟩ := h
  exact ⟨a₁, follow_step hf, hr⟩

/-- Links are not followed if the first one is not, or if it is and the others are not. -/
theorem followAll_cons_error {deeper : Option (Trace → Action (Assembly σ) Nat)} {holder : Nat}
    {s : Segment} {target : TraceId} {rest : List (Nat × Segment × TraceId)}
    {a a' : Assembly σ} {e : Failure}
    (h : followAll l deeper ((holder, s, target) :: rest) a = (.error e, a')) :
    FollowStep l deeper holder s target a (.error e) a' ∨
      ∃ a₁, FollowStep l deeper holder s target a (.ok ()) a₁ ∧
        followAll l deeper rest a₁ = (.error e, a') := by
  rw [followAll, Action.bind_eq_error] at h
  rcases h with hf | ⟨u, a₁, hf, hr⟩
  · exact .inl (follow_step hf)
  · exact .inr ⟨a₁, follow_step hf, hr⟩

/-- Once the first link has been followed, the others are. -/
theorem FollowStep.followAll_ok {deeper : Option (Trace → Action (Assembly σ) Nat)} {holder : Nat}
    {s : Segment} {target : TraceId} {a a' : Assembly σ}
    (h : FollowStep l deeper holder s target a (.ok ()) a')
    (rest : List (Nat × Segment × TraceId)) :
    followAll l deeper ((holder, s, target) :: rest) a = followAll l deeper rest a' := by
  rw [followAll, Action.bind_apply, h.eq]

/-- If the first link fails, the others are not followed. -/
theorem FollowStep.followAll_error {deeper : Option (Trace → Action (Assembly σ) Nat)}
    {holder : Nat} {s : Segment} {target : TraceId} {a a' : Assembly σ} {e : Failure}
    (h : FollowStep l deeper holder s target a (.error e) a')
    (rest : List (Nat × Segment × TraceId)) :
    followAll l deeper ((holder, s, target) :: rest) a = (.error e, a') := by
  rw [followAll, Action.bind_apply, h.eq]

/-! ### Entering a trace -/

/-- An assembly in which a trace is being entered and its segments are placed. -/
def placed (a : Assembly σ) (id : TraceId) (layout : Layout) : Assembly σ :=
  { a with
    chain := a.chain ++ [id]
    nodes := a.nodes ++ (layout.nodes a.nodes.size).toArray }

/-- The links followed from the segments of a layout. -/
def linksOn (options : Options) (base : Nat) (layout : Layout) : List (Nat × Segment × TraceId) :=
  if options.fetchChildTraces then linksFrom base layout.placed else []

/-- An assembly in which the trace entered last is no longer being entered. -/
def left (a : Assembly σ) : Assembly σ := { a with chain := a.chain.dropLast }

/-- Entering a trace in three parts: its layout, its place, its links. -/
theorem enter_eq (l : Lookup σ) (options : Options)
    (deeper : Option (Trace → Action (Assembly σ) Nat)) (t : Trace) (designated : Option String)
    (a : Assembly σ) :
    enter l options deeper t designated a =
      match Layout.ofTrace t designated options.orphans with
      | .error e => (.error e, a)
      | .ok layout =>
        match followAll l deeper (linksOn options a.nodes.size layout) (a.placed t.id layout) with
        | (.error e, a') => (.error e, a'.left)
        | (.ok (), a') => (.ok a.nodes.size, a'.left) := by
  unfold enter entering
  simp only [Action.bind_apply, Action.ofExcept]
  cases hl : Layout.ofTrace t designated options.orphans with
  | error e => simp
  | ok layout =>
      rcases hall : followAll l deeper (linksOn options a.nodes.size layout) (a.placed t.id layout)
        with ⟨r, a'⟩
      simp only [hall]
      simp only [placed, linksOn] at hall
      cases hf : options.fetchChildTraces with
      | false =>
          simp only [hf, if_false, followAll_nil, Bool.false_eq_true] at hall
          cases hall
          simp [place, left]
      | true =>
          simp only [hf, if_true] at hall
          cases r with
          | error e => simp [place, Action.bind_apply, hall, left]
          | ok u => simp [place, Action.bind_apply, hall, left]

/-- A trace is entered if it has a layout and its links are followed. -/
theorem enter_ok {deeper : Option (Trace → Action (Assembly σ) Nat)} {t : Trace}
    {designated : Option String} {a a' : Assembly σ} {root : Nat}
    (h : enter l options deeper t designated a = (.ok root, a')) :
    ∃ layout a₁, Layout.ofTrace t designated options.orphans = .ok layout ∧
      followAll l deeper (linksOn options a.nodes.size layout) (a.placed t.id layout)
        = (.ok (), a₁) ∧
      root = a.nodes.size ∧ a' = a₁.left := by
  rw [enter_eq] at h
  cases hl : Layout.ofTrace t designated options.orphans with
  | error e =>
      rw [hl] at h
      cases h
  | ok layout =>
      rw [hl] at h
      rcases hall : followAll l deeper (linksOn options a.nodes.size layout) (a.placed t.id layout)
        with ⟨r, a₁⟩
      simp only [hall] at h
      cases r with
      | error e => cases h
      | ok u =>
          cases h
          exact ⟨layout, a₁, rfl, hall, rfl, rfl⟩

/-- Entering a trace fails if it has no layout, or if a link on it cannot be followed. -/
theorem enter_error {deeper : Option (Trace → Action (Assembly σ) Nat)} {t : Trace}
    {designated : Option String} {a a' : Assembly σ} {e : Failure}
    (h : enter l options deeper t designated a = (.error e, a')) :
    (Layout.ofTrace t designated options.orphans = .error e ∧ a' = a) ∨
      ∃ layout a₁, Layout.ofTrace t designated options.orphans = .ok layout ∧
        followAll l deeper (linksOn options a.nodes.size layout) (a.placed t.id layout)
          = (.error e, a₁) ∧
        a' = a₁.left := by
  rw [enter_eq] at h
  cases hl : Layout.ofTrace t designated options.orphans with
  | error e' =>
      rw [hl] at h
      cases h
      exact .inl ⟨rfl, rfl⟩
  | ok layout =>
      rw [hl] at h
      rcases hall : followAll l deeper (linksOn options a.nodes.size layout) (a.placed t.id layout)
        with ⟨r, a₁⟩
      simp only [hall] at h
      cases r with
      | error e' =>
          cases h
          exact .inr ⟨layout, a₁, rfl, hall, rfl⟩
      | ok u => cases h

/-- Entering a trace that has a layout ends as following its links does. -/
theorem enter_of_links {deeper : Option (Trace → Action (Assembly σ) Nat)} {t : Trace}
    {designated : Option String} {a a₁ : Assembly σ} {layout : Layout} {r : Except Failure Unit}
    (hl : Layout.ofTrace t designated options.orphans = .ok layout)
    (hall : followAll l deeper (linksOn options a.nodes.size layout) (a.placed t.id layout)
      = (r, a₁)) :
    enter l options deeper t designated a = (r.map fun _ => a.nodes.size, a₁.left) := by
  rw [enter_eq, hl]
  simp only [hall]
  cases r <;> rfl

/-- How a trace that a link leads to is entered, when a number of levels is left. -/
def deeper (l : Lookup σ) (options : Options) : Nat → Option (Trace → Action (Assembly σ) Nat)
  | 0 => none
  | levels + 1 => some fun child => splice l options levels child none

/-- Entering a trace with a number of levels left, in terms of entering one with a level less. -/
theorem splice_eq (levels : Nat) (t : Trace) (designated : Option String) :
    splice l options levels t designated
      = enter l options (deeper l options levels) t designated := by
  cases levels <;> rfl

theorem deeper_eq_none {levels : Nat} (h : deeper l options levels = none) : levels = 0 := by
  cases levels with
  | zero => rfl
  | succ n => cases h

/-- Where a link may be followed there is one level more, and its trace is entered with one less. -/
theorem deeper_eq_some {levels : Nat} {enter : Trace → Action (Assembly σ) Nat}
    (h : deeper l options levels = some enter) :
    ∃ n, levels = n + 1 ∧ enter = fun child => splice l options n child none := by
  cases levels with
  | zero => cases h
  | succ n =>
      cases h
      exact ⟨n, rfl, rfl⟩

/-- What holds of a number of levels if it holds of one level less, if there is one, holds of every
number. -/
theorem levels_induction {Q : Nat → Prop} (h : ∀ levels, (∀ n, levels = n + 1 → Q n) → Q levels)
    (levels : Nat) : Q levels := by
  induction levels with
  | zero => exact h 0 (by simp)
  | succ n ih =>
      refine h (n + 1) ?_
      rintro _ ⟨⟩
      exact ih

/-- Of the options, entering a trace looks only at whether links are followed and at the policy for
orphans. -/
theorem splice_congr {options' : Options}
    (hfetch : options'.fetchChildTraces = options.fetchChildTraces)
    (horphans : options'.orphans = options.orphans) :
    ∀ levels : Nat, splice l options' levels = splice l options levels := by
  intro levels
  induction levels with
  | zero =>
      funext t designated
      unfold splice enter
      rw [hfetch, horphans]
  | succ n ih =>
      funext t designated
      unfold splice enter
      rw [ih, hfetch, horphans]

/-! ### Trees -/

/-- The tree of a source trace, when all is placed and followed. -/
def tree (a : Assembly σ) (root : Nat) (source : Trace) : Tree :=
  ⟨a.nodes, root, Arena.paths a.nodes root, source, a.childTraces, a.linkLimitExceeded,
    a.unresolved⟩

/-- A tree is put together when the source trace is found and entered. -/
theorem assemble_eq_ok {header : Header} {s s' : σ} {t : Tree} :
    Tree.assemble l header options s = (.ok t, s') ↔
      ∃ source s₁ root a, l.trace header.root s = (.ok source, s₁) ∧
        splice l options options.maxLinkDepth source header.parent (.start s₁) = (.ok root, a) ∧
        t = a.tree root source ∧ s' = a.backend := by
  unfold Tree.assemble
  rcases l.trace header.root s with ⟨e | source, s₁⟩
  · simp
  · simp only
    rcases hsplice : splice l options options.maxLinkDepth source header.parent (.start s₁)
      with ⟨e | root, a⟩
    · constructor
      · intro h
        cases h
      · rintro ⟨_, _, root, a, h, hs, -⟩
        cases h
        rw [hsplice] at hs
        cases hs
    · constructor
      · intro h
        cases h
        exact ⟨source, s₁, root, a, rfl, hsplice, rfl, rfl⟩
      · rintro ⟨_, _, root, a, h, hs, rfl, rfl⟩
        cases h
        rw [hsplice] at hs
        cases hs
        rfl

/-- No tree is put together when the source trace is not found, or cannot be entered. -/
theorem assemble_eq_error {header : Header} {s s' : σ} {e : Failure} :
    Tree.assemble l header options s = (.error e, s') ↔
      l.trace header.root s = (.error e, s') ∨
      ∃ source s₁ a, l.trace header.root s = (.ok source, s₁) ∧
        splice l options options.maxLinkDepth source header.parent (.start s₁) = (.error e, a) ∧
        s' = a.backend := by
  unfold Tree.assemble
  rcases l.trace header.root s with ⟨e' | source, s₁⟩
  · simp
  · simp only
    rcases hsplice : splice l options options.maxLinkDepth source header.parent (.start s₁)
      with ⟨e' | root, a⟩
    · constructor
      · intro h
        cases h
        exact .inr ⟨source, s₁, a, rfl, hsplice, rfl⟩
      · rintro (h | ⟨_, _, a, h, hs, rfl⟩)
        · cases h
        · cases h
          rw [hsplice] at hs
          cases hs
          rfl
    · constructor
      · intro h
        cases h
      · rintro (h | ⟨_, _, a, h, hs, rfl⟩)
        · cases h
        · cases h
          rw [hsplice] at hs
          cases hs

/-- A tree passes when open leaves are allowed, or it has none. -/
theorem checked_eq_ok {t u : Tree} :
    t.checked options = .ok u ↔
      u = t ∧ (options.allowOpenLeaves = true ∨ t.openLeaf? = none) := by
  unfold Tree.checked
  cases options.allowOpenLeaves with
  | true => simp [eq_comm]
  | false => cases t.openLeaf? <;> simp [eq_comm]

/-- Otherwise the first open leaf is reported. -/
theorem checked_eq_error {t : Tree} {e : Failure} :
    t.checked options = .error e ↔
      options.allowOpenLeaves = false ∧
        ∃ leaf, t.openLeaf? = some leaf ∧ e = .leafOpen leaf.trace leaf.id := by
  unfold Tree.checked
  cases options.allowOpenLeaves with
  | true => simp
  | false => cases t.openLeaf? <;> simp [eq_comm]

/-- A tree is built if it is assembled and none of its paths ends where it must not. -/
theorem build_eq_ok {header : Header} {s s' : σ} {t : Tree} :
    Tree.build l header options s = (.ok t, s') ↔
      Tree.assemble l header options s = (.ok t, s') ∧
        (options.allowOpenLeaves = true ∨ t.openLeaf? = none) := by
  unfold Tree.build
  rw [Action.bind_eq_ok]
  constructor
  · rintro ⟨u, s₁, ha, hc⟩
    obtain ⟨hchecked, rfl⟩ := Prod.mk.inj hc
    obtain ⟨rfl, hleaf⟩ := checked_eq_ok.mp hchecked
    exact ⟨ha, hleaf⟩
  · rintro ⟨ha, hleaf⟩
    exact ⟨t, s', ha, by rw [checked_eq_ok.mpr ⟨rfl, hleaf⟩]; rfl⟩

/-- A tree is not built if it is not assembled, or if it is and a path ends where it must not. -/
theorem build_eq_error {header : Header} {s s' : σ} {e : Failure} :
    Tree.build l header options s = (.error e, s') ↔
      Tree.assemble l header options s = (.error e, s') ∨
      ∃ t leaf, Tree.assemble l header options s = (.ok t, s') ∧
        options.allowOpenLeaves = false ∧ t.openLeaf? = some leaf ∧
        e = .leafOpen leaf.trace leaf.id := by
  unfold Tree.build
  rw [Action.bind_eq_error]
  refine or_congr_right ⟨?_, ?_⟩
  · rintro ⟨t, s₁, ha, hc⟩
    obtain ⟨hchecked, rfl⟩ := Prod.mk.inj hc
    obtain ⟨hopen, leaf, hleaf, rfl⟩ := checked_eq_error.mp hchecked
    exact ⟨t, leaf, ha, hopen, hleaf, rfl⟩
  · rintro ⟨t, leaf, ha, hopen, hleaf, rfl⟩
    exact ⟨t, s', ha, by rw [checked_eq_error.mpr ⟨hopen, leaf, hleaf, rfl⟩]; rfl⟩

/-- No tree is built when looking the source trace up fails. -/
theorem build_of_trace_error {header : Header} {s s' : σ} {e : Failure}
    (h : l.trace header.root s = (.error e, s')) :
    Tree.build l header options s = (.error e, s') :=
  build_eq_error.mpr (.inl (assemble_eq_error.mpr (.inl h)))

/-! ### What holds between the start and the end of a run -/

/-- A relation between assemblies that every step respects.  The last field speaks of the time
during which a trace is being entered. -/
structure Respected (l : Lookup σ) (P : Assembly σ → Assembly σ → Prop) : Prop where
  refl : ∀ a, P a a
  trans : ∀ {a b c}, P a b → P b c → P a c
  asked : ∀ {a : Assembly σ} {target : TraceId} {r : Except Failure Trace} {s : σ},
    l.trace target a.backend = (r, s) → P a { a with backend := s }
  obtained : ∀ {a a' : Assembly σ} {target : TraceId} {t : Trace},
    Obtains l target a t a' → P a a'
  missing : ∀ (a : Assembly σ) (u : UnresolvedLink),
    P a { a with unresolved := a.unresolved ++ [u] }
  tooDeep : ∀ (a : Assembly σ) (u : UnresolvedLink),
    P a { a with unresolved := a.unresolved ++ [u], linkLimitExceeded := true }
  attached : ∀ (a : Assembly σ) (holder child : Nat),
    P a { a with nodes := Arena.attach a.nodes holder child }
  entered : ∀ {a a' : Assembly σ} {id : TraceId} {layout : Layout},
    P (a.placed id layout) a' → P a a'.left

namespace Respected

variable {P : Assembly σ → Assembly σ → Prop}

/-- A relation that every step respects holds across following one link, if it does across
entering a trace. -/
theorem follow (hP : Respected l P) {deeper : Option (Trace → Action (Assembly σ) Nat)}
    (hd : ∀ enter, deeper = some enter → ∀ t a r a', enter t a = (r, a') → P a a')
    {holder : Nat} {s : Segment} {target : TraceId} {a a' : Assembly σ}
    {r : Except Failure Unit} (h : FollowStep l deeper holder s target a r a') : P a a' := by
  cases h with
  | cycle _ => exact hP.refl _
  | tooDeep _ _ => exact hP.tooDeep _ _
  | missing enter id st _ _ _ ht => exact hP.trans (hP.asked ht) (hP.missing _ _)
  | lookupFails enter e st _ _ _ ht _ => exact hP.asked ht
  | enterFails enter t a₁ e _ _ hs ho hn => exact hP.trans (hP.obtained ho) (hd enter hs t _ _ _ hn)
  | entered enter t a₁ child a₂ _ hs ho hn =>
      exact hP.trans (hP.trans (hP.obtained ho) (hd enter hs t _ _ _ hn)) (hP.attached _ _ _)

/-- A relation that every step respects holds across following links, if it does across entering
traces. -/
theorem followAll (hP : Respected l P) {deeper : Option (Trace → Action (Assembly σ) Nat)}
    (hd : ∀ enter, deeper = some enter → ∀ t a r a', enter t a = (r, a') → P a a') :
    ∀ {links : List (Nat × Segment × TraceId)} {a a' : Assembly σ} {r : Except Failure Unit},
      Assembly.followAll l deeper links a = (r, a') → P a a' := by
  intro links
  induction links with
  | nil =>
      intro a a' r h
      cases h
      exact hP.refl _
  | cons link rest ih =>
      intro a a' r h
      obtain ⟨holder, s, target⟩ := link
      cases r with
      | ok u =>
          obtain ⟨a₁, hs, hr⟩ := followAll_cons_ok h
          exact hP.trans (hP.follow hd hs) (ih hr)
      | error e =>
          rcases followAll_cons_error h with hs | ⟨a₁, hs, hr⟩
          · exact hP.follow hd hs
          · exact hP.trans (hP.follow hd hs) (ih hr)

/-- A relation that every step respects holds across entering a trace, if it does across entering
those that its links lead to. -/
theorem enter (hP : Respected l P) {deeper : Option (Trace → Action (Assembly σ) Nat)}
    (hd : ∀ enter, deeper = some enter → ∀ t a r a', enter t a = (r, a') → P a a')
    {t : Trace} {designated : Option String} {a a' : Assembly σ} {r : Except Failure Nat}
    (h : Assembly.enter l options deeper t designated a = (r, a')) : P a a' := by
  cases r with
  | ok root =>
      obtain ⟨layout, a₁, -, hall, -, rfl⟩ := enter_ok h
      exact hP.entered (hP.followAll hd hall)
  | error e =>
      rcases enter_error h with ⟨-, rfl⟩ | ⟨layout, a₁, -, hall, rfl⟩
      · exact hP.refl _
      · exact hP.entered (hP.followAll hd hall)

/-- A relation that every step respects holds across a whole run, however it ends. -/
theorem splice (hP : Respected l P) :
    ∀ (levels : Nat) {t : Trace} {designated : Option String} {a a' : Assembly σ}
      {r : Except Failure Nat},
      Assembly.splice l options levels t designated a = (r, a') → P a a' := by
  refine levels_induction fun levels ih => ?_
  intro t designated a a' r h
  rw [splice_eq] at h
  refine hP.enter ?_ h
  intro enter he t a r a' hn
  obtain ⟨n, hlevels, rfl⟩ := deeper_eq_some he
  exact ih n hlevels hn

/-- A relation that every step respects holds across following one link. -/
theorem step (hP : Respected l P) {levels holder : Nat} {s : Segment} {target : TraceId}
    {a a' : Assembly σ} {r : Except Failure Unit}
    (h : FollowStep l (deeper l options levels) holder s target a r a') : P a a' := by
  refine hP.follow ?_ h
  intro enter he t a r a' hn
  obtain ⟨n, rfl, rfl⟩ := deeper_eq_some he
  exact hP.splice n hn

/-- A relation that every step respects holds across following links. -/
theorem links (hP : Respected l P) {levels : Nat} {links : List (Nat × Segment × TraceId)}
    {a a' : Assembly σ} {r : Except Failure Unit}
    (h : Assembly.followAll l (deeper l options levels) links a = (r, a')) : P a a' := by
  refine hP.followAll ?_ h
  intro enter he t a r a' hn
  obtain ⟨n, rfl, rfl⟩ := deeper_eq_some he
  exact hP.splice n hn

/-- When following links fails, it is because of one of them. -/
theorem failing_link (hP : Respected l P) {levels : Nat} :
    ∀ {links : List (Nat × Segment × TraceId)} {a a' : Assembly σ} {e : Failure},
      Assembly.followAll l (deeper l options levels) links a = (.error e, a') →
      ∃ link ∈ links, ∃ a₁, P a a₁ ∧
        FollowStep l (deeper l options levels) link.1 link.2.1 link.2.2 a₁ (.error e) a' := by
  intro links
  induction links with
  | nil =>
      intro a a' e h
      cases h
  | cons link rest ih =>
      intro a a' e h
      obtain ⟨holder, s, target⟩ := link
      rcases followAll_cons_error h with hs | ⟨a₁, hs, hr⟩
      · exact ⟨_, List.mem_cons_self, a, hP.refl a, hs⟩
      · obtain ⟨link, hlink, a₂, ha₂, hfail⟩ := ih hr
        exact ⟨link, List.mem_cons_of_mem _ hlink, a₂, hP.trans (hP.step hs) ha₂, hfail⟩

/-- Two relations that every step respects hold together. -/
theorem and {Q : Assembly σ → Assembly σ → Prop} (hP : Respected l P) (hQ : Respected l Q) :
    Respected l fun a a' => P a a' ∧ Q a a' where
  refl a := ⟨hP.refl a, hQ.refl a⟩
  trans h h' := ⟨hP.trans h.1 h'.1, hQ.trans h.2 h'.2⟩
  asked ht := ⟨hP.asked ht, hQ.asked ht⟩
  obtained ho := ⟨hP.obtained ho, hQ.obtained ho⟩
  missing a u := ⟨hP.missing a u, hQ.missing a u⟩
  tooDeep a u := ⟨hP.tooDeep a u, hQ.tooDeep a u⟩
  attached a holder child := ⟨hP.attached a holder child, hQ.attached a holder child⟩
  entered h := ⟨hP.entered h.1, hQ.entered h.2⟩

end Respected

/-- What a run leaves as it is: the traces being entered, the segments at the nodes, and what is
remembered of the traces looked up. -/
structure Frame (a a' : Assembly σ) : Prop where
  chain : a'.chain = a.chain
  segments : a.nodes.toList.map Node.segment <+: a'.nodes.toList.map Node.segment
  childTraces : ∀ id t, a.childTraces.get? id = some t → a'.childTraces.get? id = some t

theorem map_segment_attach (nodes : Arena) (holder child : Nat) :
    (Arena.attach nodes holder child).toList.map Node.segment = nodes.toList.map Node.segment := by
  unfold Arena.attach
  apply List.ext_getElem?
  intro i
  simp only [Array.toList_modify, List.getElem?_map, List.getElem?_modify]
  cases nodes.toList[i]? with
  | none => rfl
  | some n => by_cases hi : holder = i <;> simp [hi]

/-- Every step leaves the frame as it is. -/
theorem respected_frame (l : Lookup σ) : Respected l Frame where
  refl a := ⟨rfl, List.prefix_refl _, fun _ _ h => h⟩
  trans h₁ h₂ := ⟨h₂.chain.trans h₁.chain, h₁.segments.trans h₂.segments,
    fun id t h => h₂.childTraces id t (h₁.childTraces id t h)⟩
  asked _ := ⟨rfl, List.prefix_refl _, fun _ _ h => h⟩
  obtained := by
    intro a a' target t h
    cases h with
    | known _ => exact ⟨rfl, List.prefix_refl _, fun _ _ h => h⟩
    | found s hnone _ =>
        -- a trace is looked up only when none is remembered, so that no entry is replaced
        refine ⟨rfl, List.prefix_refl _, fun id u hu => ?_⟩
        rw [Table.get?_insert_of_ne _ _ (by rintro rfl; rw [hnone] at hu; cases hu)]
        exact hu
  missing _ _ := ⟨rfl, List.prefix_refl _, fun _ _ h => h⟩
  tooDeep _ _ := ⟨rfl, List.prefix_refl _, fun _ _ h => h⟩
  attached a holder child :=
    ⟨rfl, (map_segment_attach _ _ _).symm ▸ List.prefix_refl _, fun _ _ h => h⟩
  entered := by
    intro a a' id layout h
    refine ⟨?_, ?_, h.childTraces⟩
    · rw [left, h.chain, placed, List.dropLast_concat]
    · refine List.IsPrefix.trans ?_ h.segments
      simp [placed]

/-- The backend is in a state of a kind, and every trace remembered is one of those that may be
found under its id. -/
structure Sound (R : σ → Prop) (found : TraceId → Trace → Prop) (a : Assembly σ) : Prop where
  backend : R a.backend
  childTraces : ∀ id t, a.childTraces.get? id = some t → found id t

/-- Looking a trace up keeps the kind of state, and finds what may be found under its id. -/
def Finds (l : Lookup σ) (R : σ → Prop) (found : TraceId → Trace → Prop) : Prop :=
  ∀ id s r s', R s → l.trace id s = (r, s') → R s' ∧ ∀ t, r = .ok t → found id t

/-- In any backend, what is found under an id has that id, and segments. -/
theorem finds_keyed (l : Lookup σ) :
    Finds l (fun _ => True) fun id t => t.id = id ∧ t.segments ≠ [] := by
  intro id s r s' _ h
  refine ⟨trivial, ?_⟩
  rintro t rfl
  exact Lookup.trace_ok h

/-- Every step keeps an assembly sound. -/
theorem respected_sound {R : σ → Prop} {found : TraceId → Trace → Prop} (hf : Finds l R found) :
    Respected l fun a a' => Sound R found a → Sound R found a' where
  refl _ h := h
  trans h₁ h₂ h := h₂ (h₁ h)
  asked ht h := ⟨(hf _ _ _ _ h.backend ht).1, h.childTraces⟩
  obtained := by
    intro a a' target t ho h
    cases ho with
    | known _ => exact h
    | found s hnone ht =>
        obtain ⟨hR, hfound⟩ := hf _ _ _ _ h.backend ht
        refine ⟨hR, fun id u hu => ?_⟩
        rw [Table.get?_insert] at hu
        split at hu
        · next hid =>
            cases hu
            exact hid ▸ hfound t rfl
        · exact h.childTraces id u hu
  missing _ _ h := ⟨h.backend, h.childTraces⟩
  tooDeep _ _ h := ⟨h.backend, h.childTraces⟩
  attached _ _ _ h := ⟨h.backend, h.childTraces⟩
  entered h₁ h :=
    ⟨(h₁ ⟨h.backend, h.childTraces⟩).backend, (h₁ ⟨h.backend, h.childTraces⟩).childTraces⟩

/-- A trace that is had for a target is one of those that may be found. -/
theorem Obtains.sound {R : σ → Prop} {found : TraceId → Trace → Prop} (hf : Finds l R found)
    {target : TraceId} {t : Trace} {a a' : Assembly σ} (ho : Obtains l target a t a')
    (h : Sound R found a) : found target t := by
  cases ho with
  | known hk => exact h.childTraces _ _ hk
  | found s hnone ht => exact (hf _ _ _ _ h.backend ht).2 t rfl

end CausalTrace.Assembly
