import CausalTrace.Assembly.Layout
import CausalTrace.Assembly.Path
import CausalTrace.Backend.Lookup

/-!
# Putting trees together

Looks a trace up, places its segments, and does the same with the traces that its links lead to,
down to a number of levels.

## Main definitions

* `Assembly` — the tree so far, and the state of the backend
* `Assembly.follow` — what becomes of a link
* `Assembly.splice` — placing a trace and following its links
* `Tree.assemble`, `Tree.build` — the tree of a header

## Design notes

`splice` recurses on the number of levels that may still be followed.  A trace that links back to
one that is being entered is an error, checked before the level is.  Traces are looked up once when
they are found: what has been found is remembered in `childTraces`.
-/

namespace CausalTrace

/-- A tree under construction. -/
structure Assembly (σ : Type) where
  /-- The state of the backend. -/
  backend : σ
  nodes : Arena
  childTraces : Table TraceId Trace
  /-- The traces being entered, from the outermost on. -/
  chain : List TraceId
  linkLimitExceeded : Bool
  unresolved : List UnresolvedLink

namespace Assembly

variable {σ : Type}

/-- Nothing placed yet. -/
def start (backend : σ) : Assembly σ := ⟨backend, #[], [], [], false, []⟩

/-! ### Child traces -/

/-- Looks a trace up. -/
def lookup (l : Lookup σ) (id : TraceId) : Action (Assembly σ) Trace :=
  Action.within Assembly.backend (fun s a => { a with backend := s }) (l.trace id)

/-- The trace that a link leads to, as it was found before or is found now; none when it is not
there. -/
def childTrace? (l : Lookup σ) (target : TraceId) : Action (Assembly σ) (Option Trace) := fun a =>
  match a.childTraces.get? target with
  | some t => (.ok (some t), a)
  | none =>
    match lookup l target a with
    | (.ok t, a') => (.ok (some t), { a' with childTraces := a'.childTraces.insert target t })
    | (.error (.traceNotFound _), a') => (.ok none, a')
    | (.error e, a') => (.error e, a')

/-! ### Changes of the assembly -/

/-- Places the segments of a layout.  Gives the number of its root. -/
def place (l : Layout) : Action (Assembly σ) Nat := fun a =>
  let base := a.nodes.size
  (.ok base, { a with nodes := a.nodes ++ (l.nodes base).toArray })

/-- Puts a placed trace below the node that holds the link to it. -/
def attach (holder child : Nat) : Action (Assembly σ) Unit :=
  Action.modify fun a => { a with nodes := Arena.attach a.nodes holder child }

/-- Notes a link that is not followed. -/
def leave (s : Segment) (target : TraceId) (reason : UnresolvedReason) :
    Action (Assembly σ) Unit :=
  Action.modify fun a => { a with
    unresolved := a.unresolved ++ [⟨s.id, target, reason⟩]
    linkLimitExceeded := a.linkLimitExceeded || reason == .depthLimit }

/-- A computation during which a trace is being entered. -/
def entering {α : Type} (id : TraceId) (x : Action (Assembly σ) α) : Action (Assembly σ) α :=
  fun a =>
    let (r, a') := x { a with chain := a.chain ++ [id] }
    (r, { a' with chain := a'.chain.dropLast })

/-! ### Links -/

/-- The traces that the child links on a segment, and on those nested in it, lead to; each once. -/
def targets (s : Segment) : List TraceId := ((s.linksOf .child).map Link.trace).eraseDups

/-- The links to be followed from nodes numbered from `base` on, each with its node and segment. -/
def linksFrom (base : Nat) (placed : List Segment) : List (Nat × Segment × TraceId) :=
  (placed.zipIdx base).flatMap fun e => (targets e.1).map fun t => (e.2, e.1, t)

/-- Follows a link, unless it leads back to a trace being entered.  `deeper` enters a trace, if one
more level may be followed. -/
def follow (l : Lookup σ) (deeper : Option (Trace → Action (Assembly σ) Nat)) (holder : Nat)
    (s : Segment) (target : TraceId) : Action (Assembly σ) Unit := do
  let a ← Action.get
  if a.chain.contains target then .fail (.linkCycle target a.chain)
  else
    match deeper with
    | none => leave s target .depthLimit
    | some enter => do
      match ← childTrace? l target with
      | none => leave s target .notFound
      | some t =>
        let child ← enter t
        attach holder child

/-- Follows links, one after the other. -/
def followAll (l : Lookup σ) (deeper : Option (Trace → Action (Assembly σ) Nat)) :
    List (Nat × Segment × TraceId) → Action (Assembly σ) Unit
  | [] => pure ()
  | (holder, s, target) :: rest => do
    follow l deeper holder s target
    followAll l deeper rest

/-- Places a trace and follows its links.  Gives the number of its root. -/
def enter (l : Lookup σ) (options : Options) (deeper : Option (Trace → Action (Assembly σ) Nat))
    (t : Trace) (designated : Option String) : Action (Assembly σ) Nat :=
  entering t.id do
    let layout ← Action.ofExcept (Layout.ofTrace t designated options.orphans)
    let root ← place layout
    if options.fetchChildTraces then followAll l deeper (linksFrom root layout.placed)
    pure root

/-- Places a trace and the traces that its links lead to, down to a number of levels.  Gives the
number of its root. -/
def splice (l : Lookup σ) (options : Options) :
    Nat → Trace → Option String → Action (Assembly σ) Nat
  | 0, t, designated => enter l options none t designated
  | levels + 1, t, designated =>
    enter l options (some fun child => splice l options levels child none) t designated

end Assembly

namespace Tree

variable {σ : Type}

/-- The tree of a header, whatever its leaves are. -/
def assemble (l : Lookup σ) (header : Header) (options : Options) : Action σ Tree := fun s =>
  match l.trace header.root s with
  | (.error e, s') => (.error e, s')
  | (.ok source, s') =>
    match Assembly.splice l options options.maxLinkDepth source header.parent (.start s') with
    | (.error e, a) => (.error e, a.backend)
    | (.ok root, a) =>
      (.ok ⟨a.nodes, root, Arena.paths a.nodes root, source, a.childTraces, a.linkLimitExceeded,
        a.unresolved⟩, a.backend)

/-- The segment at the end of a path. -/
def leaf? (t : Tree) (path : List Nat) : Option Segment :=
  path.getLast?.bind (Arena.segment? t.nodes)

/-- The leaf of the first path that ends in a segment that is still open. -/
def openLeaf? (t : Tree) : Option Segment :=
  (t.paths.filterMap t.leaf?).find? Segment.isOpen

/-- The tree, unless a path ends in a segment that is still open and must not. -/
def checked (t : Tree) (options : Options) : Except Failure Tree :=
  if options.allowOpenLeaves then .ok t
  else
    match t.openLeaf? with
    | some leaf => .error (.leafOpen leaf.trace leaf.id)
    | none => .ok t

/-- The tree of a header. -/
def build (l : Lookup σ) (header : Header) (options : Options) : Action σ Tree := do
  let t ← assemble l header options
  .ofExcept (t.checked options)

end Tree

end CausalTrace
