import CausalTrace.Assembly.Tree

/-!
# Paths of a tree

All ways from a node to a leaf, with the children of every node in order.

## Main definitions

* `Arena.visits` — how many nodes are met on the ways down from a node
* `Arena.trail` — the walk over pending nodes
* `Arena.paths` — the ways from a node to a leaf

## Design notes

The walk keeps the nodes still to be met, each with its depth, and the way to the node met last.
The way to the next node is that way cut to the depth of the node, and the node itself.  The walk
meets as many nodes as `visits` says, as long as no way leads back to where it came from.
-/

namespace CausalTrace.Arena

/-- The number of nodes met on all ways down from a node, down to a depth. -/
def visits (nodes : Arena) : Nat → Nat → Nat
  | 0, _ => 1
  | depth + 1, i => 1 + ((children nodes i).map (visits nodes depth)).foldr (· + ·) 0

/-- The ways to the leaves below pending nodes, for a number of steps; `way` leads to the node met
last. -/
def trail (nodes : Arena) : Nat → List (Nat × Nat) → List Nat → List (List Nat)
  | 0, _, _ => []
  | _ + 1, [], _ => []
  | steps + 1, (i, depth) :: pending, way =>
    let way' := way.take depth ++ [i]
    match children nodes i with
    | [] => way' :: trail nodes steps pending way'
    | below => trail nodes steps (below.map (fun c => (c, depth + 1)) ++ pending) way'

/-- The ways from a node to a leaf, with the children of every node in order. -/
def paths (nodes : Arena) (root : Nat) : List (List Nat) :=
  trail nodes (visits nodes nodes.size root) [(root, 0)] []

end CausalTrace.Arena
