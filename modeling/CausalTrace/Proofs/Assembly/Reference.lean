import CausalTrace.Assembly.Splice
import CausalTrace.Proofs.Trace.Preorder
import Mathlib.Data.List.Forall2
import Mathlib.Logic.Relation

/-!
# What a tree should be

The tree of a header, described from what the traces say and without the machinery that puts it
together: there is no arena, nothing is numbered, no trace is remembered and nothing is changed.
Everything here is stated in terms of the answers to ids, which are the same whenever they are asked
for.

## Main definitions

* `Forest`, `Forest.paths` — trees of segments
* `Grows` — a forest grows from items that show what is below them
* `Reference.Counted`, `Reference.Outline`, `Reference.Hanging` — the segments of one trace
* `Reference.Enters` — the root of a trace, or why it has none
* `Reference.Leads` — where a link leads to
* `Reference.Denotes`, `Reference.Meets` — the tree of a header, and the failures on the way
* `Reference.Yields`, `Reference.Fails` — what is to become of a header

## Design notes

All of this is relational: a parent id means this segment, a link leads there.  That every relation
gives one result and no more is shown where it is compared with the function that computes it.

A forest is built from first trees and remaining ones, so that one inductive relation, over lists of
items, is enough for trees of any width.
-/

namespace CausalTrace

/-! ### Forests -/

/-- A list of trees of segments: the segment at the root of the first one, the trees below it, and
the other trees. -/
inductive Forest
  | nil
  | cons (segment : Segment) (below rest : Forest)

/-- The segments on the ways from the roots to the leaves. -/
def Forest.paths : Forest → List (List Segment)
  | .nil => []
  | .cons s below rest =>
    (match below with
      | .nil => [[s]]
      | .cons .. => below.paths.map (s :: ·)) ++ rest.paths

/-- The segments that nothing is below, in the order of the paths. -/
def Forest.leaves (f : Forest) : List Segment := f.paths.filterMap List.getLast?

/-- A forest grows from items if each item shows the segment at its place, and what is below it
grows from the items it shows there. -/
inductive Grows {α : Type} (shows : α → Segment → List α → Prop) : List α → Forest → Prop
  | nil : Grows shows [] .nil
  | cons {x : α} {s : Segment} {inner rest : List α} {below others : Forest} : shows x s inner →
      Grows shows inner below → Grows shows rest others →
      Grows shows (x :: rest) (.cons s below others)

/-- What a node of an arena shows. -/
def Arena.Shows (nodes : Arena) (i : Nat) (s : Segment) (below : List Nat) : Prop :=
  nodes[i]? = some ⟨s, below⟩

namespace Reference

/-! ### The segments of a trace -/

/-- One copy of a segment comes before another: by start time, then by place in the trace. -/
def Before (a b : Segment × Nat) : Prop :=
  a.1.start < b.1.start ∨ (a.1.start = b.1.start ∧ a.2 < b.2)

/-- A copy of a segment that comes before all others with its id. -/
def FirstCopy (segments : List Segment) (a : Segment × Nat) : Prop :=
  a ∈ segments.zipIdx ∧ ∀ b ∈ segments.zipIdx, b.1.id = a.1.id → b = a ∨ Before a b

/-- The segments that count are the first copies, one after the other. -/
def Counted (segments counted : List Segment) : Prop :=
  ∃ copies : List (Segment × Nat), copies.Pairwise Before ∧
    (∀ a, a ∈ copies ↔ FirstCopy segments a) ∧ counted = copies.map Prod.fst

/-- One segment comes before another as root: by start time, then by id. -/
def Precedes (s t : Segment) : Prop := s.start < t.start ∨ (s.start = t.start ∧ s.id < t.id)

/-- A segment may be the root: it counts, and has no parent or the one that the caller names. -/
def MayBeRoot (counted : List Segment) (designated : Option String) (s : Segment) : Prop :=
  s ∈ counted ∧ (s.parent = none ∨ s.parent = designated)

/-- The segments of a trace that count, and the first of those that may be the root. -/
structure Outline (t : Trace) (designated : Option String) (counted : List Segment)
    (root : Segment) : Prop where
  counts : Counted t.segments counted
  candidate : MayBeRoot counted designated root
  first : ∀ s, MayBeRoot counted designated s → s = root ∨ Precedes root s

/-- A segment has one with an id nested in it. -/
def Nests (s : Segment) (id : String) : Prop := ∃ d ∈ s.preorder.tail, d.id = id

/-- A parent id means the segment with that id, or, if there is none, the first in which one with
that id is nested. -/
def Means (counted : List Segment) (parent : String) (s : Segment) : Prop :=
  (s ∈ counted ∧ s.id = parent) ∨
    ((∀ u ∈ counted, u.id ≠ parent) ∧ ∃ front back, counted = front ++ s :: back ∧
      Nests s parent ∧ ∀ u ∈ front, ¬ Nests u parent)

/-- The segments that hang below one, in their order: those other than it and the root whose parent
id means it. -/
def Hanging (t : Trace) (designated : Option String) (s : Segment) (below : List Segment) : Prop :=
  ∃ counted root, Outline t designated counted root ∧ below.Sublist counted ∧
    ∀ c, c ∈ below ↔ c ∈ counted ∧ c ≠ root ∧ c ≠ s ∧ ∃ parent, c.parent = some parent ∧
      Means counted parent s

/-- A segment other than the root whose parent id means nothing in the trace, and is not the one
that the caller names. -/
def Orphan (counted : List Segment) (root : Segment) (designated : Option String) (s : Segment)
    (parent : String) : Prop :=
  s ≠ root ∧ s.parent = some parent ∧ designated ≠ some parent ∧
    ∀ u ∈ counted, u.id ≠ parent ∧ ¬ Nests u parent

/-- An orphan before which there are none. -/
def FirstOrphan (counted : List Segment) (root : Segment) (designated : Option String) (s : Segment)
    (parent : String) : Prop :=
  Orphan counted root designated s parent ∧ ∃ front back, counted = front ++ s :: back ∧
    ∀ u ∈ front, ∀ p, ¬ Orphan counted root designated u p

/-- The root of a trace, or why the trace cannot be entered. -/
inductive Enters (policy : OrphanPolicy) (t : Trace) (designated : Option String) :
    Except Failure Segment → Prop
  | rootless {counted : List Segment} : Counted t.segments counted →
      (∀ s, ¬ MayBeRoot counted designated s) →
      Enters policy t designated (.error (.rootNotFound t.id))
  | awaited {counted : List Segment} {root s : Segment} {parent : String} :
      Outline t designated counted root → FirstOrphan counted root designated s parent →
      policy = .retry → Enters policy t designated (.error (.parentMissing t.id s.id parent))
  | orphaned {counted : List Segment} {root s : Segment} {parent : String} :
      Outline t designated counted root → FirstOrphan counted root designated s parent →
      policy = .fail → Enters policy t designated (.error (.orphaned t.id s.id parent))
  | root {counted : List Segment} {root : Segment} : Outline t designated counted root →
      (policy = .prune ∨ ∀ s ∈ counted, ∀ parent, ¬ Orphan counted root designated s parent) →
      Enters policy t designated (.ok root)

/-! ### From trace to trace -/

/-- The traces that the child links on a segment, and on those nested in it, lead to; each once. -/
def targets (s : Segment) : List TraceId :=
  (((s.preorder.flatMap Segment.links).filter fun link => link.kind == .child).map
    Link.trace).eraseDups

/-- A place in a tree. -/
structure Place where
  /-- The trace that was entered. -/
  trace : Trace
  /-- The parent of its root outside the trace, if it is known. -/
  designated : Option String
  /-- How many links were followed to come here. -/
  depth : Nat
  /-- The traces entered on the way, this one last. -/
  chain : List TraceId
  segment : Segment

section

variable (answers : TraceId → Except Failure Trace) (options : Options)

/-- Where a link leads to: nowhere, to the root of a trace, or to a failure. -/
inductive Leads (p : Place) (target : TraceId) : Except Failure (List Place) → Prop
  | cycle : target ∈ p.chain → Leads p target (.error (.linkCycle target p.chain))
  | tooDeep : target ∉ p.chain → options.maxLinkDepth ≤ p.depth → Leads p target (.ok [])
  | missing {id : TraceId} : target ∉ p.chain → p.depth < options.maxLinkDepth →
      answers target = .error (.traceNotFound id) → Leads p target (.ok [])
  | unanswered {e : Failure} : target ∉ p.chain → p.depth < options.maxLinkDepth →
      answers target = .error e → (∀ id, e ≠ .traceNotFound id) → Leads p target (.error e)
  | refused {t : Trace} {e : Failure} : target ∉ p.chain → p.depth < options.maxLinkDepth →
      answers target = .ok t → Enters options.orphans t none (.error e) → Leads p target (.error e)
  | entered {t : Trace} {root : Segment} : target ∉ p.chain → p.depth < options.maxLinkDepth →
      answers target = .ok t → Enters options.orphans t none (.ok root) →
      Leads p target (.ok [⟨t, none, p.depth + 1, p.chain ++ [target], root⟩])

/-- The links that are followed from a segment. -/
def followed (s : Segment) : List TraceId := if options.fetchChildTraces then targets s else []

/-- Below a segment are those that hang below it in its trace, and behind them the roots that its
links lead to. -/
def Shows (p : Place) (s : Segment) (places : List Place) : Prop :=
  s = p.segment ∧ ∃ below linked, Hanging p.trace p.designated p.segment below ∧
    List.Forall₂ (fun target entered => Leads answers options p target (.ok entered))
      (followed options p.segment) linked ∧
    places = below.map (fun c => { p with segment := c }) ++ linked.flatten

/-- The place of the root of a tree. -/
def Place.start (header : Header) (source : Trace) (root : Segment) : Place :=
  ⟨source, header.parent, 0, [header.root], root⟩

/-- A forest is the tree of a header. -/
def Denotes (header : Header) (f : Forest) : Prop :=
  ∃ source root, answers header.root = .ok source ∧
    Enters options.orphans source header.parent (.ok root) ∧
    Grows (Shows answers options) [Place.start header source root] f

/-- One place is directly below another. -/
inductive Steps (p : Place) : Place → Prop
  | hangs {below : List Segment} {c : Segment} : Hanging p.trace p.designated p.segment below →
      c ∈ below → Steps p { p with segment := c }
  | leads {target : TraceId} {q : Place} : target ∈ followed options p.segment →
      Leads answers options p target (.ok [q]) → Steps p q

/-- From a place one comes to a link that leads to a failure. -/
def Blocked (p : Place) (e : Failure) : Prop :=
  ∃ q target, Relation.ReflTransGen (Steps answers options) p q ∧
    target ∈ followed options q.segment ∧ Leads answers options q target (.error e)

/-- A failure is met on the way to the tree of a header. -/
inductive Meets (header : Header) (e : Failure) : Prop
  | unanswered : answers header.root = .error e → Meets header e
  | refused {source : Trace} : answers header.root = .ok source →
      Enters options.orphans source header.parent (.error e) → Meets header e
  | blocked {source : Trace} {root : Segment} : answers header.root = .ok source →
      Enters options.orphans source header.parent (.ok root) →
      Blocked answers options (Place.start header source root) e → Meets header e

/-- A forest is the tree of a header, and none of its leaves is open, unless that is allowed. -/
def Yields (header : Header) (f : Forest) : Prop :=
  Denotes answers options header f ∧
    (options.allowOpenLeaves = true ∨ ∀ leaf ∈ f.leaves, leaf.isOpen = false)

/-- A failure is met on the way to the tree of a header, or it is the first open leaf of the tree.
-/
inductive Fails (header : Header) : Failure → Prop
  | met {e : Failure} : Meets answers options header e → Fails header e
  | leafOpen {f : Forest} {leaf : Segment} : options.allowOpenLeaves = false →
      Denotes answers options header f → f.leaves.find? Segment.isOpen = some leaf →
      Fails header (.leafOpen leaf.trace leaf.id)

end

end Reference

end CausalTrace
