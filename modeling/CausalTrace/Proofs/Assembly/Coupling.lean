import CausalTrace.Proofs.Assembly.Step
import CausalTrace.Proofs.Backend.Coupling

/-!
# Trees from backends that answer alike

Where two backends answer alike, and traces in each other's place have one id and one layout, the
same is put together from them: the same nodes, the same links left, the same failure.  The traces
themselves may differ in what a layout does not see.

## Main definitions

* `Assembly.Alike`, `Tree.Alike` — assemblies and trees that differ in their traces only
* `Tree.requests` — the calls made for a tree

## Main statements

* `Assembly.splice_coupled` — entering traces in each other's place
* `Tree.build_coupled` — trees from backends that answer alike are alike
* `Tree.build_same` — trees from backends that give the same answers are the same
* `Tree.build_recorded` — the tree is the same when calls are recorded
-/

namespace CausalTrace

variable {σ τ : Type} {R : σ → τ → Prop} {T : Trace → Trace → Prop} {l : Lookup σ} {l' : Lookup τ}
  {options : Options}

namespace Assembly

/-- Two assemblies that differ in the state of their backend, and in the traces they remember. -/
structure Alike (R : σ → τ → Prop) (T : Trace → Trace → Prop) (a : Assembly σ) (a' : Assembly τ) :
    Prop where
  backend : R a.backend a'.backend
  nodes : a'.nodes = a.nodes
  childTraces : a.childTraces.Alike T a'.childTraces
  chain : a'.chain = a.chain
  linkLimitExceeded : a'.linkLimitExceeded = a.linkLimitExceeded
  unresolved : a'.unresolved = a.unresolved

/-! ### Links -/

/-- The trace for a target is had alike, remembered or looked up. -/
theorem childTrace?_coupled (hl : Lookup.Coupled R T l l') (target : TraceId) :
    Action.Coupled (Alike R T) (Option.Rel T) (childTrace? l target) (childTrace? l' target) := by
  intro a a' ha
  have hget := ha.childTraces.get? target
  obtain ⟨hagree, hbackend⟩ := hl target _ _ ha.backend
  unfold childTrace? lookup Action.within
  generalize a.childTraces.get? target = x at hget ⊢
  generalize a'.childTraces.get? target = y at hget ⊢
  cases hget with
  | some ht => exact ⟨.ok (.some ht), ha⟩
  | none =>
      generalize l.trace target a.backend = p at hagree hbackend ⊢
      generalize l'.trace target a'.backend = q at hagree hbackend ⊢
      obtain ⟨r, s⟩ := p
      obtain ⟨r', s'⟩ := q
      have halike : Alike R T { a with backend := s } { a' with backend := s' } :=
        { ha with backend := hbackend }
      cases hagree with
      | ok ht =>
          exact ⟨.ok (.some ht), { halike with childTraces := ha.childTraces.insert target ht }⟩
      | error e =>
          cases e with
          | traceNotFound id => exact ⟨.ok .none, halike⟩
          | _ => exact ⟨.error _, halike⟩

theorem leave_coupled (s : Segment) (target : TraceId) (reason : UnresolvedReason) :
    Action.Coupled (Alike R T) (fun _ _ => True) (leave s target reason) (leave s target reason) :=
  .modify fun a a' ha => { ha with
    linkLimitExceeded := by simp only [ha.linkLimitExceeded]
    unresolved := by simp only [ha.unresolved] }

theorem attach_coupled (holder child : Nat) :
    Action.Coupled (Alike R T) (fun _ _ => True) (attach holder child) (attach holder child) :=
  .modify fun a a' ha => { ha with nodes := by simp only [ha.nodes] }

/-- Two ways of entering traces, if there are any, that end alike with traces in each other's
place. -/
abbrev DeeperCoupled (R : σ → τ → Prop) (T : Trace → Trace → Prop) :
    Option (Trace → Action (Assembly σ) Nat) → Option (Trace → Action (Assembly τ) Nat) → Prop :=
  Option.Rel fun enter enter' => ∀ t t', T t t' →
    Action.Coupled (Alike R T) (fun i j => j = i) (enter t) (enter' t')

section

variable {deeper : Option (Trace → Action (Assembly σ) Nat)}
  {deeper' : Option (Trace → Action (Assembly τ) Nat)}

/-- A link is followed alike when its target is entered alike. -/
theorem follow_coupled (hl : Lookup.Coupled R T l l') (hd : DeeperCoupled R T deeper deeper')
    (holder : Nat) (s : Segment) (target : TraceId) :
    Action.Coupled (Alike R T) (fun _ _ => True) (follow l deeper holder s target)
      (follow l' deeper' holder s target) := by
  unfold follow
  refine Action.Coupled.get.bind fun a a' ha => ?_
  rw [ha.chain]
  split
  · exact .fail _
  · cases hd with
    | none => exact leave_coupled s target _
    | some henter =>
        refine (childTrace?_coupled hl target).bind fun x y hxy => ?_
        cases hxy with
        | none => exact leave_coupled s target _
        | some ht =>
            refine (henter _ _ ht).bind fun i j hij => ?_
            rw [hij]
            exact attach_coupled holder i

/-- Links are followed alike one after the other. -/
theorem followAll_coupled (hl : Lookup.Coupled R T l l') (hd : DeeperCoupled R T deeper deeper') :
    ∀ links : List (Nat × Segment × TraceId),
      Action.Coupled (Alike R T) (fun _ _ => True) (followAll l deeper links)
        (followAll l' deeper' links) := by
  intro links
  induction links with
  | nil => exact .pure trivial
  | cons link rest ih =>
      obtain ⟨holder, s, target⟩ := link
      exact (follow_coupled hl hd holder s target).bind fun _ _ _ => ih

end

/-! ### Entering traces -/

theorem place_coupled (layout : Layout) :
    Action.Coupled (Alike R T) (fun i j => j = i) (place layout) (place layout) := by
  intro a a' ha
  unfold place
  refine ⟨.ok (by rw [ha.nodes]), { ha with nodes := by simp only [ha.nodes] }⟩

/-- Noting the trace that is being entered keeps computations alike. -/
theorem entering_coupled {α β : Type} {V : α → β → Prop} {x : Action (Assembly σ) α}
    {y : Action (Assembly τ) β} (id : TraceId) (h : Action.Coupled (Alike R T) V x y) :
    Action.Coupled (Alike R T) V (entering id x) (entering id y) := by
  intro a a' ha
  obtain ⟨hagree, hleft⟩ := h { a with chain := a.chain ++ [id] }
    { a' with chain := a'.chain ++ [id] } { ha with chain := congrArg (· ++ [id]) ha.chain }
  exact ⟨hagree, { hleft with chain := congrArg List.dropLast hleft.chain }⟩

section

variable (hl : Lookup.Coupled R T l l')
  (hT : ∀ t t', T t t' → t'.id = t.id ∧
    ∀ designated policy, Layout.ofTrace t' designated policy = Layout.ofTrace t designated policy)

include hl hT in
/-- Traces in each other's place are entered alike when traces one level deeper are. -/
theorem enter_coupled {deeper : Option (Trace → Action (Assembly σ) Nat)}
    {deeper' : Option (Trace → Action (Assembly τ) Nat)} (hd : DeeperCoupled R T deeper deeper')
    {t t' : Trace} (ht : T t t') (designated : Option String) :
    Action.Coupled (Alike R T) (fun i j => j = i) (enter l options deeper t designated)
      (enter l' options deeper' t' designated) := by
  obtain ⟨hid, hlayout⟩ := hT t t' ht
  unfold enter
  rw [hid, hlayout]
  refine entering_coupled _ ?_
  refine (Action.Coupled.ofExcept (V := fun x y => y = x) ?_).bind fun layout layout' heq => ?_
  · cases Layout.ofTrace t designated options.orphans with
    | ok layout => exact .ok rfl
    | error e => exact .error e
  · subst heq
    refine (place_coupled layout').bind fun i j hij => ?_
    rw [hij]
    split
    · exact (followAll_coupled hl hd _).bind fun _ _ _ => .pure rfl
    · exact .pure rfl

include hl hT in
/-- Traces in each other's place are entered alike. -/
theorem splice_coupled : ∀ (levels : Nat) {t t' : Trace} (designated : Option String), T t t' →
    Action.Coupled (Alike R T) (fun i j => j = i) (splice l options levels t designated)
      (splice l' options levels t' designated) := by
  intro levels
  induction levels with
  | zero => exact fun designated ht => enter_coupled hl hT .none ht designated
  | succ n ih =>
      exact fun designated ht => enter_coupled hl hT (.some fun _ _ hu => ih none hu) ht designated

end

end Assembly

/-! ### Trees -/

namespace Tree

/-- Two trees that differ in the traces they are made of only. -/
structure Alike (T : Trace → Trace → Prop) (t t' : Tree) : Prop where
  nodes : t'.nodes = t.nodes
  root : t'.root = t.root
  paths : t'.paths = t.paths
  sourceTrace : T t.sourceTrace t'.sourceTrace
  childTraces : t.childTraces.Alike T t'.childTraces
  linkLimitExceeded : t'.linkLimitExceeded = t.linkLimitExceeded
  unresolved : t'.unresolved = t.unresolved

/-- Trees that are made of the same traces and are alike are the same. -/
theorem Alike.eq {t t' : Tree} (h : Alike (fun u v => v = u) t t') : t' = t := by
  obtain ⟨hnodes, hroot, hpaths, hsource, htable, hlimit, hunresolved⟩ := h
  replace htable := htable.eq
  cases t
  cases t'
  simp only at hnodes hroot hpaths hsource htable hlimit hunresolved
  rw [hnodes, hroot, hpaths, hsource, htable, hlimit, hunresolved]

/-- Alike trees have the same open leaves. -/
theorem Alike.checked {t t' : Tree} (h : Alike T t t') :
    Agree (Alike T) (t.checked options) (t'.checked options) := by
  have hleaf : t'.openLeaf? = t.openLeaf? := by
    unfold openLeaf? leaf?
    rw [h.paths, h.nodes]
  unfold Tree.checked
  rw [hleaf]
  split
  · exact .ok h
  · split
    · exact .error _
    · exact .ok h

section

variable (hl : Lookup.Coupled R T l l')
  (hT : ∀ t t', T t t' → t'.id = t.id ∧
    ∀ designated policy, Layout.ofTrace t' designated policy = Layout.ofTrace t designated policy)

include hl hT in
/-- Trees are put together alike, whatever their leaves are. -/
theorem assemble_coupled (header : Header) :
    Action.Coupled R (Alike T) (assemble l header options) (assemble l' header options) := by
  intro s s' hs
  obtain ⟨hagree, hs₁⟩ := hl header.root s s' hs
  unfold assemble
  generalize l.trace header.root s = p at hagree hs₁ ⊢
  generalize l'.trace header.root s' = q at hagree hs₁ ⊢
  obtain ⟨r, s₁⟩ := p
  obtain ⟨r', s₁'⟩ := q
  cases hagree with
  | error e => exact ⟨.error e, hs₁⟩
  | @ok source source' hsource =>
      have hstart : Assembly.Alike R T (.start s₁) (.start s₁') := ⟨hs₁, rfl, .nil, rfl, rfl, rfl⟩
      have hsplice : Action.Coupled (Assembly.Alike R T) (fun i j => j = i)
          (Assembly.splice l options options.maxLinkDepth source header.parent)
          (Assembly.splice l' options options.maxLinkDepth source' header.parent) :=
        Assembly.splice_coupled hl hT _ _ hsource
      obtain ⟨hagree, ha⟩ := hsplice _ _ hstart
      simp only
      generalize Assembly.splice l options options.maxLinkDepth source header.parent (.start s₁)
        = p at hagree ha ⊢
      generalize Assembly.splice l' options options.maxLinkDepth source' header.parent (.start s₁')
        = q at hagree ha ⊢
      obtain ⟨r, a⟩ := p
      obtain ⟨r', a'⟩ := q
      cases hagree with
      | error e => exact ⟨.error e, ha.backend⟩
      | @ok i j hroot =>
          subst hroot
          exact ⟨.ok ⟨ha.nodes, rfl, congrArg (Arena.paths · j) ha.nodes, hsource, ha.childTraces,
            ha.linkLimitExceeded, ha.unresolved⟩, ha.backend⟩

include hl hT in
/-- Trees from backends that answer alike are alike. -/
theorem build_coupled (header : Header) :
    Action.Coupled R (Alike T) (build l header options) (build l' header options) :=
  (assemble_coupled hl hT header).bind fun _ _ h => .ofExcept h.checked

end

/-- The same tree is built, or building it fails in the same way, where traces are looked up in the
same way. -/
theorem build_same (hl : Lookup.Coupled R (fun t u => u = t) l l') (header : Header)
    (options : Options) {s : σ} {s' : τ} (hs : R s s') :
    (build l' header options s').1 = (build l header options s).1 ∧
      R (build l header options s).2 (build l' header options s').2 := by
  have hcoupled : Action.Coupled R (Alike fun t u => u = t) (build l header options)
      (build l' header options) :=
    build_coupled hl (by rintro t _ rfl; exact ⟨rfl, fun _ _ => rfl⟩) header
  obtain ⟨hagree, hstate⟩ := hcoupled s s' hs
  refine ⟨?_, hstate⟩
  generalize (build l header options s).1 = x at hagree ⊢
  generalize (build l' header options s').1 = y at hagree ⊢
  cases hagree with
  | ok h => rw [h.eq]
  | error e => rfl

/-- The calls made of a backend for the tree of a header, in order. -/
def requests (l : Lookup σ) (header : Header) (options : Options) (s : σ) : List (List TraceId) :=
  (build l.recorded header options (s, [])).2.2

/-- When the calls are recorded, the tree and the state of the backend are the same. -/
theorem build_recorded (l : Lookup σ) (header : Header) (options : Options) (s : σ)
    (log : List (List TraceId)) :
    (build l.recorded header options (s, log)).1 = (build l header options s).1 ∧
      (build l.recorded header options (s, log)).2.1 = (build l header options s).2 :=
  build_same l.coupled_recorded header options rfl

end Tree

end CausalTrace
