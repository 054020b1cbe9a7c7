import CausalTrace.Trace.Basic

/-!
# Trees of segments

A tree holds the segments of a trace, and of the traces its links lead to, as nodes that refer to
each other by number.  The same segment may stand at several nodes, when a trace is linked to from
several places.

## Main definitions

* `Options`, `OrphanPolicy` — how a tree is put together
* `Node`, `Arena` — numbered nodes
* `UnresolvedLink` — a link that was not followed
* `Tree`, and what can be asked of one

## Design notes

The children of a node are the segments of its own trace that hang below it, followed by the roots
of the traces its links lead to.
-/

namespace CausalTrace

/-- What becomes of a segment whose parent is nowhere in its trace. -/
inductive OrphanPolicy
  /-- It is left out, with all that hangs below it. -/
  | prune
  /-- Its parent is waited for. -/
  | retry
  /-- The tree cannot be had. -/
  | fail
  deriving DecidableEq, Repr

/-- How a tree is put together. -/
structure Options where
  /-- Whether the links to child traces are followed. -/
  fetchChildTraces : Bool := false
  /-- How many levels of child traces are followed. -/
  maxLinkDepth : Nat := 5
  orphans : OrphanPolicy := .prune
  /-- Whether a path may end in a segment that is still open. -/
  allowOpenLeaves : Bool := false
  deriving DecidableEq, Repr

/-- A segment at its place in a tree. -/
structure Node where
  segment : Segment
  /-- The numbers of the nodes below it, in order. -/
  children : List Nat
  deriving Repr

/-- Whether nothing is below a node. -/
def Node.isLeaf (n : Node) : Bool := n.children.isEmpty

/-- Nodes, numbered from zero on. -/
abbrev Arena := Array Node

namespace Arena

/-- The segment at a node. -/
def segment? (nodes : Arena) (i : Nat) : Option Segment := nodes[i]?.map Node.segment

/-- The numbers of the nodes below a node. -/
def children (nodes : Arena) (i : Nat) : List Nat := (nodes[i]?.map Node.children).getD []

/-- The arena with one more node, the last, below a node. -/
def attach (nodes : Arena) (holder child : Nat) : Arena :=
  nodes.modify holder fun n => { n with children := n.children ++ [child] }

end Arena

/-- Why a link was not followed. -/
inductive UnresolvedReason
  /-- The trace it leads to is not there, or not yet. -/
  | notFound
  /-- It leads to a level of child traces that is not followed. -/
  | depthLimit
  deriving DecidableEq, Repr

/-- The name of a reason in listings. -/
def UnresolvedReason.name : UnresolvedReason → String
  | .notFound => "NotFound"
  | .depthLimit => "DepthLimit"

/-- A link that was not followed. -/
structure UnresolvedLink where
  /-- The segment that holds the link. -/
  segment : String
  trace : TraceId
  reason : UnresolvedReason
  deriving DecidableEq, Repr

/-- A trace, and the traces its links lead to, as a tree of segments. -/
structure Tree where
  nodes : Arena
  root : Nat
  /-- The ways from the root to a leaf, as numbers of nodes. -/
  paths : List (List Nat)
  /-- The trace of the root. -/
  sourceTrace : Trace
  /-- The traces entered through links. -/
  childTraces : Table TraceId Trace
  /-- Whether a link was not followed because of its level. -/
  linkLimitExceeded : Bool
  unresolved : List UnresolvedLink
  deriving Repr

namespace Tree

/-- The segment at the root. -/
def rootSegment? (t : Tree) : Option Segment := Arena.segment? t.nodes t.root

/-- The segments along a path. -/
def segmentsAlong (t : Tree) (path : List Nat) : List Segment :=
  path.filterMap (Arena.segment? t.nodes)

/-- The segments along every path. -/
def segmentPaths (t : Tree) : List (List Segment) := t.paths.map t.segmentsAlong

/-- The number of leaves. -/
def leafCount (t : Tree) : Nat := t.paths.length

/-- Whether parts of the tree may be missing, because a trace was cut for its size or links were not
followed. -/
def isPossiblyIncomplete (t : Tree) : Bool :=
  t.linkLimitExceeded || t.sourceTrace.limitExceeded || t.childTraces.any fun e => e.2.limitExceeded

/-- Whether two nodes are the same, segments counting by their ids. -/
def sameNode (m n : Node) : Bool := m.segment.isSame n.segment && m.children == n.children

/-- Whether two lists of nodes are the same, node by node. -/
def sameNodes : List Node → List Node → Bool
  | [], [] => true
  | m :: ms, n :: ns => sameNode m n && sameNodes ms ns
  | _, _ => false

/-- Whether two tables of traces are the same, trace by trace. -/
def sameTraces : Table TraceId Trace → Table TraceId Trace → Bool
  | [], [] => true
  | (a, t) :: rest, (b, u) :: rest' => a == b && t.isSame u && sameTraces rest rest'
  | _, _ => false

/-- Whether two trees are the same, segments counting by their ids. -/
def isSame (t u : Tree) : Bool :=
  sameNodes t.nodes.toList u.nodes.toList && t.root == u.root && t.paths == u.paths
    && t.sourceTrace.isSame u.sourceTrace && sameTraces t.childTraces u.childTraces
    && t.linkLimitExceeded == u.linkLimitExceeded && t.unresolved == u.unresolved

/-- The JSON form of a tree: its segments along every path, and the traces it is made of. -/
def toJson (t : Tree) : Json := .object [
  ("root", .ofOption Segment.toJson t.rootSegment?),
  ("paths", .ofList (.ofList Segment.toJson) t.segmentPaths),
  ("source_trace", t.sourceTrace.toJson),
  ("child_traces", .ofTable (t.childTraces.map fun e => (e.1.text, e.2.toJson))),
  ("link_limit_exceeded", .bool t.linkLimitExceeded)]

end Tree

end CausalTrace
