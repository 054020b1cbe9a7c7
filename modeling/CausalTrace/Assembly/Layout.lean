import CausalTrace.Assembly.Tree
import CausalTrace.Backend.Batch

/-!
# The layout of a trace

A trace lists its segments in no particular order, possibly several times, and says of each only
the id of its parent.  A layout picks the root and says which segment hangs below which; the
placement then numbers the segments that hang below the root.

## Main definitions

* `Layout.inStartOrder`, `Layout.firstCopies` — the segments that count
* `Layout.resolve?` — the segment that a parent id means
* `Layout`, `Layout.ofTrace`
* `Layout.hung`, `Layout.nodes` — the placement

## Design notes

Only the first copy of a segment in the order of start times counts, so that the ids of the
segments that count are distinct, and a segment can be named by its id.  A parent id means the
segment with that id, or else the first segment in which one with that id is nested.

The placement takes a segment from a stack and moves what hangs below it from the loose segments
onto the stack.  Every step makes the stack and the loose segments together one shorter, so it
ends, also when parents form a cycle: segments on a cycle, and what hangs below them, stay loose.
-/

namespace CausalTrace

/-- Which segments of a trace hang below which. -/
structure Layout where
  root : Segment
  /-- Segments other than the root, each with the id of the segment it hangs below, in the order of
  start times. -/
  attached : List (String × Segment)
  deriving Repr

namespace Layout

/-! ### The segments that count -/

/-- Segments by start time; those that start at the same time stay in their order. -/
def inStartOrder (segments : List Segment) : List Segment :=
  segments.mergeSort fun s t => decide (s.start ≤ t.start)

/-- The first segment with each id. -/
def firstCopies : List Segment → List Segment
  | [] => []
  | s :: rest => s :: (firstCopies rest).filter fun t => t.id ≠ s.id

/-- The segment that a parent id means: the one with that id, or else the first in which one with
that id is nested. -/
def resolve? (segments : List Segment) (parent : String) : Option Segment :=
  (segments.find? fun s => s.id == parent).orElse fun _ =>
    segments.find? fun s => s.descendants.any fun d => d.id == parent

/-! ### The root -/

/-- Whether a segment may be the root: it has no parent, or the one that the caller names. -/
def isCandidate (designated : Option String) (s : Segment) : Bool :=
  match s.parent with
  | none => true
  | some parent => designated == some parent

/-- Whether a segment comes before another as root: by start time, then by id. -/
def precedes (s t : Segment) : Bool :=
  decide (s.start < t.start) || (s.start == t.start && decide (s.id < t.id))

/-- The segment that comes before all others. -/
def earliest? : List Segment → Option Segment
  | [] => none
  | s :: rest =>
    match earliest? rest with
    | none => some s
    | some t => if precedes t s then some t else some s

/-! ### What hangs below what -/

/-- The id of the segment below which a segment other than the root hangs; none when it is left
out. -/
def owner? (trace : TraceId) (designated : Option String) (policy : OrphanPolicy)
    (segments : List Segment) (s : Segment) : Except Failure (Option String) :=
  match s.parent with
  | none => .ok none
  | some parent =>
    match resolve? segments parent with
    | some owner => .ok (if owner.id = s.id then none else some owner.id)
    | none =>
      if designated = some parent then .ok none
      else
        match policy with
        | .prune => .ok none
        | .retry => .error (.parentMissing trace s.id parent)
        | .fail => .error (.orphaned trace s.id parent)

/-- Segments with the ids of those below which they hang, less those that are left out. -/
def attach (trace : TraceId) (designated : Option String) (policy : OrphanPolicy)
    (segments : List Segment) : List Segment → Except Failure (List (String × Segment))
  | [] => .ok []
  | s :: rest => do
    let owner ← owner? trace designated policy segments s
    let others ← attach trace designated policy segments rest
    return (owner.map fun id => (id, s)).toList ++ others

/-- The layout of a trace, given the parent of its root outside the trace, if the caller knows
one. -/
def ofTrace (t : Trace) (designated : Option String) (policy : OrphanPolicy) :
    Except Failure Layout :=
  let segments := firstCopies (inStartOrder t.segments)
  match earliest? (segments.filter (isCandidate designated)) with
  | none => .error (.rootNotFound t.id)
  | some root => do
    let attached ←
      attach t.id designated policy segments (segments.filter fun s => s.id ≠ root.id)
    return ⟨root, attached⟩

/-! ### Placement -/

/-- The loose segments that hang below the one with an id. -/
def looseBelow (loose : List (String × Segment)) (id : String) : List Segment :=
  (loose.filter fun e => e.1 == id).map Prod.snd

/-- The loose segments that hang elsewhere. -/
def looseElse (loose : List (String × Segment)) (id : String) : List (String × Segment) :=
  loose.filter fun e => e.1 != id

/-- Loose segments hang below an id or elsewhere; placement ends because it takes the former from
them. -/
theorem length_looseBelow_add (loose : List (String × Segment)) (id : String) :
    (looseBelow loose id).length + (looseElse loose id).length = loose.length := by
  induction loose with
  | nil => rfl
  | cons e rest ih =>
    simp only [looseBelow, looseElse, List.length_map, List.length_cons] at ih ⊢
    by_cases h : e.1 = id <;> simp [h] at ih ⊢ <;> omega

/-- Segments numbered from `next` on, as entries of the stack. -/
def numbered (next : Nat) (segments : List Segment) : List (Nat × String) :=
  (segments.zipIdx next).map fun e => (e.2, e.1.id)

/-- The segments that hang below those on a stack, in the order in which they are numbered from
`next` on, each with the number of the one it hangs below.  The stack holds numbers and ids. -/
def hang (stack : List (Nat × String)) (next : Nat) (loose : List (String × Segment)) :
    List (Nat × Segment) :=
  match stack with
  | [] => []
  | (node, id) :: rest =>
    let children := looseBelow loose id
    children.map (fun c => (node, c))
      ++ hang ((numbered next children).reverse ++ rest) (next + children.length)
          (looseElse loose id)
termination_by stack.length + loose.length
decreasing_by
  have := length_looseBelow_add loose id
  simp only [numbered, List.length_append, List.length_reverse, List.length_map,
    List.length_zipIdx, List.length_cons]
  omega

/-- The segments placed below the root, in the order in which they are numbered from one on, each
with the number of the one it hangs below.  The root has number zero. -/
def hung (l : Layout) : List (Nat × Segment) := hang [(0, l.root.id)] 1 l.attached

/-- The segments placed, in the order of their numbers. -/
def placed (l : Layout) : List Segment := l.root :: l.hung.map Prod.snd

/-- The numbers of the segments below the one with number `i`. -/
def below (hung : List (Nat × Segment)) (i : Nat) : List Nat :=
  (hung.zipIdx 1).filterMap fun e => if e.1.1 = i then some e.2 else none

/-- The nodes of the segments placed, when numbers are counted from `base` on. -/
def nodes (l : Layout) (base : Nat) : List Node :=
  l.placed.zipIdx.map fun e => ⟨e.1, (below l.hung e.2).map (base + ·)⟩

end Layout

end CausalTrace
