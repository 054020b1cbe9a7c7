import CausalTrace.Proofs.Assembly.Ledger
import CausalTrace.Proofs.Assembly.Lineage
import CausalTrace.Proofs.Assembly.Positions
import CausalTrace.Proofs.Assembly.Step

/-!
# Putting trees together by index

A trace is entered node by node: one segment after the other is looked up at its position, gets the
next number, and is noted below the node that was taken from a stack.  Later a child trace is noted
below the node that holds the link to it.  Every position and every number may be out of range here,
and then there is no result at all; but it never comes to that, and what results is what results
when all nodes of a trace are placed at once.

## Main definitions

* `Assembly.placeBelow?`, `Assembly.placeAll?` — nodes for segments at positions
* `Assembly.Guarded` — computations that end when an index is out of range
* `Assembly.followAt`, `Assembly.spliceAt` — following a link and entering a trace

## Main statements

* `Assembly.placeBelow?_eq`, `Assembly.placeAll?_eq` — the nodes that are placed
* `Assembly.followAt_eq`, `Assembly.spliceAt_eq` — no index is out of range

## Design notes

The loop over the stack keeps no record of what has been placed.  It gets as many rounds as the
trace has segments, so that `none` also stands for a loop that needs more.  That it does not is
known from `Layout.Unrecorded`, whose derivations are the runs of that loop; the nodes after each
round are those of the segments hung so far.

Segments are hung below relative numbers, counted from the root on.  The arena may hold nodes
already, and `front` stands for them: a node has the number of nodes in front more than its relative
number.
-/

namespace CausalTrace.Assembly

open Layout

/-! ### Nodes for segments at positions -/

/-- Nodes for the segments at positions, one after the other, each noted below a node.  Gives the
number and the position of each. -/
def placeBelow? (segments : List Segment) (node : Nat) :
    List Nat → Arena → Option (Arena × List (Nat × Nat))
  | [], nodes => some (nodes, [])
  | i :: rest, nodes => do
    let s ← segments[i]?
    let nodes' ← modifyAt? (nodes.push ⟨s, []⟩) node fun n =>
      { n with children := n.children ++ [nodes.size] }
    let (nodes'', entries) ← placeBelow? segments node rest nodes'
    return (nodes'', (nodes.size, i) :: entries)

/-- Nodes for all that hangs below those on a stack, in a number of rounds at most.  The stack holds
numbers and positions, and what is noted below a node goes onto it. -/
def placeAll? (segments : List Segment) (below : Array (List Nat)) :
    Nat → List (Nat × Nat) → Arena → Option (Arena × List (Nat × Nat))
  | _, [], nodes => some (nodes, [])
  | 0, _ :: _, _ => none
  | rounds + 1, e :: rest, nodes => do
    let positions ← below[e.2]?
    let (nodes', entries) ← placeBelow? segments e.1 positions nodes
    let (nodes'', more) ← placeAll? segments below rounds (entries.reverse ++ rest) nodes'
    return (nodes'', entries ++ more)

/-- The nodes of a root and of segments hung one after the other, each below a relative number. -/
def nodesOf (root : Segment) (hung : List (Nat × Segment)) (base : Nat) : List Node :=
  (root :: hung.map Prod.snd).zipIdx.map fun e => ⟨e.1, (below hung e.2).map (base + ·)⟩

theorem below_concat (hung : List (Nat × Segment)) (k : Nat) (c : Segment) (i : Nat) :
    below (hung ++ [(k, c)]) i = below hung i ++ if k = i then [hung.length + 1] else [] := by
  unfold below
  rw [List.zipIdx_append, List.filterMap_append, Nat.add_comm 1]
  by_cases h : k = i <;> simp [h]

theorem below_eq_nil {hung : List (Nat × Segment)} {i : Nat} (h : ∀ e ∈ hung, e.1 ≠ i) :
    below hung i = [] := by
  unfold below
  rw [List.filterMap_eq_nil_iff]
  intro e he
  exact if_neg (h e.1 (List.fst_mem_of_mem_zipIdx he))

theorem modify_append {α : Type} (l more : List α) (k : Nat) (f : α → α) :
    (l ++ more).modify (l.length + k) f = l ++ more.modify k f := by
  induction l with
  | nil => rw [List.nil_append, List.nil_append, List.length_nil, Nat.zero_add]
  | cons x rest ih =>
      rw [List.cons_append, List.length_cons, Nat.add_right_comm, List.modify_succ_cons, ih,
        List.cons_append]

theorem getElem?_nodesOf (root : Segment) (hung : List (Nat × Segment)) (base i : Nat) :
    (nodesOf root hung base)[i]? = (root :: hung.map Prod.snd)[i]?.map fun s =>
      ⟨s, (below hung i).map (base + ·)⟩ := by
  rw [nodesOf, List.getElem?_map, List.getElem?_zipIdx, Nat.zero_add, Option.map_map]
  rfl

@[simp] theorem length_nodesOf (root : Segment) (hung : List (Nat × Segment)) (base : Nat) :
    (nodesOf root hung base).length = hung.length + 1 := by
  simp [nodesOf]

/-- One more segment is hung: it gets a node, and its number goes to the node that it is below. -/
theorem nodesOf_concat {root : Segment} {hung : List (Nat × Segment)} {base k : Nat}
    (hhung : ∀ e ∈ hung, e.1 ≤ hung.length) (hk : k ≤ hung.length) (c : Segment) :
    nodesOf root (hung ++ [(k, c)]) base
      = (nodesOf root hung base ++ [Node.mk c []]).modify k fun n =>
          { n with children := n.children ++ [base + (hung.length + 1)] } := by
  apply List.ext_getElem?
  intro i
  have hplaced : root :: (hung ++ [(k, c)]).map Prod.snd = root :: hung.map Prod.snd ++ [c] := by
    simp
  rw [List.getElem?_modify, getElem?_nodesOf, below_concat, hplaced]
  rcases Nat.lt_trichotomy i (hung.length + 1) with hi | rfl | hi
  · rw [List.getElem?_append_left (by simpa using hi),
      List.getElem?_append_left (by simpa using hi), getElem?_nodesOf, Option.map_eq_map,
      Option.map_map]
    congr 1
    funext s
    by_cases hki : k = i <;> simp [hki]
  · have hnone : below hung (hung.length + 1) = [] :=
      below_eq_nil fun e he => Nat.ne_of_lt (Nat.lt_succ_of_le (hhung e he))
    rw [List.getElem?_append_right (by simp), List.getElem?_append_right (by simp), hnone,
      if_neg (Nat.ne_of_lt (Nat.lt_succ_of_le hk))]
    simp [Nat.ne_of_lt (Nat.lt_succ_of_le hk)]
  · rw [List.getElem?_eq_none (by simp; omega), List.getElem?_eq_none (by simp; omega)]
    rfl

section

variable {t : Trace} {front : List Node} {root : Segment}

/-- Numbers and positions given to segments one after the other, from a relative number on. -/
def Numbers (t : Trace) (base first : Nat) (entries : List (Nat × Nat)) (segments : List Segment) :
    Prop :=
  List.Forall₂ (fun e c => (c.1, e.2) ∈ copies t ∧ e.1 = base + c.2) entries (segments.zipIdx first)

/-- Segments that get their numbers in two goes get those that they get in one. -/
theorem Numbers.append {base first : Nat} {entries more : List (Nat × Nat)}
    {segments others : List Segment} (h : Numbers t base first entries segments)
    (h' : Numbers t base (first + segments.length) more others) :
    Numbers t base first (entries ++ more) (segments ++ others) := by
  unfold Numbers
  rw [List.zipIdx_append]
  exact List.rel_append h h'

/-- The nodes in front, and behind them those of a root and of what is hung so far. -/
structure Partly (front : List Node) (root : Segment) (hung : List (Nat × Segment))
    (nodes : Arena) : Prop where
  nodes : nodes.toList = front ++ nodesOf root hung front.length
  earlier : ∀ e ∈ hung, e.1 ≤ hung.length

theorem Partly.size {hung : List (Nat × Segment)} {nodes : Arena}
    (h : Partly front root hung nodes) : nodes.size = front.length + (hung.length + 1) := by
  rw [← Array.length_toList, h.nodes, List.length_append, length_nodesOf]

/-- One more segment gets a node and is noted below an earlier one. -/
theorem Partly.concat {hung : List (Nat × Segment)} {nodes : Arena}
    (h : Partly front root hung nodes) {k : Nat} (hk : k ≤ hung.length) (c : Segment) :
    Partly front root (hung ++ [(k, c)])
      ((nodes.push ⟨c, []⟩).modify (front.length + k) fun n =>
        { n with children := n.children ++ [nodes.size] }) where
  nodes := by
    rw [Array.toList_modify, Array.toList_push, h.nodes, h.size, List.append_assoc, modify_append,
      nodesOf_concat h.earlier hk]
  earlier e he := by
    rw [List.length_append, List.length_singleton]
    rcases List.mem_append.mp he with he | he
    · exact Nat.le_succ_of_le (h.earlier e he)
    · obtain rfl := List.mem_singleton.mp he
      exact Nat.le_succ_of_le hk

/-- The segments at positions get nodes below a node, and numbers from the next one on. -/
theorem placeBelow?_eq {positions : List Nat} {children : List Segment}
    (h : StandAt t positions children) :
    ∀ {hung : List (Nat × Segment)} {nodes : Arena} {k : Nat},
      Partly front root hung nodes → k ≤ hung.length →
      ∃ nodes' entries,
        placeBelow? t.segments (front.length + k) positions nodes = some (nodes', entries) ∧
        Partly front root (hung ++ children.map (k, ·)) nodes' ∧
        Numbers t front.length (hung.length + 1) entries children := by
  induction h with
  | nil =>
      intro hung nodes k hnodes _
      exact ⟨nodes, [], rfl, by simpa using hnodes, .nil⟩
  | @cons i c positions children hc _ ih =>
      intro hung nodes k hnodes hk
      have hlt : front.length + k < (nodes.push ⟨c, []⟩).size := by
        rw [Array.size_push, hnodes.size]
        omega
      obtain ⟨nodes', entries, hplace, hnodes', hnumbers⟩ := ih (hnodes.concat hk c) (k := k) (by
        rw [List.length_append]
        exact Nat.le_add_right_of_le hk)
      refine ⟨nodes', (nodes.size, i) :: entries, ?_, ?_, ?_⟩
      · rw [placeBelow?, getElem?_of_mem_copies hc]
        simp only [Option.bind_eq_bind, Option.bind_some, modifyAt?_eq_some _ hlt, hplace]
        rfl
      · rw [List.append_assoc] at hnodes'
        exact hnodes'
      · rw [List.length_append] at hnumbers
        exact .cons ⟨hc, hnodes.size⟩ hnumbers

/-- A stack of numbers and positions that says what one of relative numbers and ids says, where all
numbers have been given. -/
structure Stacked (t : Trace) (base next : Nat) (entries : List (Nat × Nat))
    (stack : List (Nat × String)) : Prop where
  pairs : List.Forall₂ (fun e c => (∃ s, (s, e.2) ∈ copies t ∧ s.id = c.2) ∧ e.1 = base + c.1)
    entries stack
  given : ∀ c ∈ stack, c.1 < next

/-- What has just been numbered goes onto the stack. -/
theorem Stacked.push {base next : Nat} {entries new : List (Nat × Nat)}
    {stack : List (Nat × String)} {children : List Segment} (h : Stacked t base next entries stack)
    (hnew : Numbers t base next new children) :
    Stacked t base (next + children.length) (new.reverse ++ entries)
      ((numbered next children).reverse ++ stack) where
  pairs := by
    refine List.rel_append (List.forall₂_reverse_iff.mpr ?_) h.pairs
    rw [numbered, List.forall₂_map_right_iff]
    exact hnew.imp fun e c hec => ⟨⟨c.1, hec.1, rfl⟩, hec.2⟩
  given c hc := by
    rcases List.mem_append.mp hc with hc | hc
    · obtain ⟨e, he, rfl⟩ := List.mem_map.mp (List.mem_reverse.mp hc)
      exact List.snd_lt_add_of_mem_zipIdx he
    · exact Nat.lt_add_right _ (h.given c hc)

/-- All that hangs below the segments on a stack gets nodes.  There is a round for each entry of the
stack and for each segment that is hung below one of them, because placement without a record
ends. -/
theorem placeAll?_eq {l : Layout} {p : ByPosition} (hp : p.Says t l) {stack : List (Nat × String)}
    {next : Nat} {more : List (Nat × Segment)} (h : Unrecorded l.attached stack next more) :
    ∀ {hung : List (Nat × Segment)} {nodes : Arena} {entries : List (Nat × Nat)} {rounds : Nat},
      Partly front root hung nodes → next = hung.length + 1 →
      Stacked t front.length next entries stack → stack.length + more.length ≤ rounds →
      ∃ nodes' placed, placeAll? t.segments p.below rounds entries nodes = some (nodes', placed) ∧
        Partly front root (hung ++ more) nodes' ∧
        Numbers t front.length next placed (more.map Prod.snd) := by
  induction h with
  | done =>
      intro hung nodes entries rounds hnodes _ hstack _
      cases hstack.pairs
      rw [placeAll?]
      exact ⟨nodes, [], rfl, by rwa [List.append_nil], .nil⟩
  | @step k next id stack more _ ih =>
      rintro hung nodes entries rounds hnodes rfl ⟨hpairs, hgiven⟩ hrounds
      obtain ⟨⟨node, i⟩, entries, ⟨⟨s, hs, rfl⟩, hnode⟩, hrest, rfl⟩ :=
        List.forall₂_cons_right_iff.mp hpairs
      obtain rfl : node = front.length + k := hnode
      obtain ⟨positions, hpositions, hstand⟩ := hp.below _ hs
      obtain ⟨nodes₁, new, hplace, hnodes₁, hnew⟩ := placeBelow?_eq hstand hnodes
        (Nat.le_of_lt_succ (hgiven _ List.mem_cons_self))
      have hstack : Stacked t front.length (hung.length + 1) entries stack :=
        ⟨hrest, fun c hc => hgiven c (List.mem_cons_of_mem _ hc)⟩
      simp only [List.length_cons, List.length_append, List.length_map] at hrounds
      obtain ⟨left, rfl⟩ : ∃ left, rounds = left + 1 := Nat.exists_eq_add_one.mpr (by omega)
      -- what is pushed was counted among the segments still to be hung, so that no round is added
      have hleft : ((numbered (hung.length + 1) (looseBelow l.attached s.id)).reverse
          ++ stack).length + more.length ≤ left := by
        simp only [numbered, List.length_append, List.length_reverse, List.length_map,
          List.length_zipIdx]
        omega
      obtain ⟨nodes₂, placed, hall, hnodes₂, hplaced⟩ := ih hnodes₁
        (by rw [List.length_append, List.length_map, Nat.add_right_comm]) (hstack.push hnew) hleft
      refine ⟨nodes₂, new ++ placed, ?_, ?_, ?_⟩
      · rw [placeAll?]
        simp only [Option.bind_eq_bind, Option.bind_some, hpositions, hplace, hall]
        rfl
      · rwa [List.append_assoc] at hnodes₂
      · rw [List.map_append, List.map_map, Function.comp_def, List.map_id']
        exact hnew.append hplaced

/-- No more segments are placed than the trace has. -/
theorem length_placed_le {designated : Option String} {policy : OrphanPolicy} {l : Layout}
    (h : ofTrace t designated policy = .ok l) : l.placed.length ≤ t.segments.length :=
  ((nodup_ids_placed h).of_map.subperm fun _ hs => mem_segments_of_mem_placed h hs).length_le

/-- The segments of a layout get the nodes that placing them all at once gives them, in as many
rounds as there are segments. -/
theorem placeAll?_root {designated : Option String} {policy : OrphanPolicy} {l : Layout}
    {p : ByPosition} (h : ofTrace t designated policy = .ok l) (hp : p.Says t l) (nodes : Arena) :
    ∃ placed, placeAll? t.segments p.below t.segments.length [(nodes.size, p.root)]
        (nodes.push ⟨l.root, []⟩) = some (nodes ++ (l.nodes nodes.size).toArray, placed) ∧
      Numbers t nodes.size 0 ((nodes.size, p.root) :: placed) l.placed := by
  have hstart : Partly nodes.toList l.root [] (nodes.push ⟨l.root, []⟩) :=
    ⟨Array.toList_push, by simp⟩
  have hstack : Stacked t nodes.toList.length 1 [(nodes.size, p.root)] [(0, l.root.id)] :=
    ⟨.cons ⟨⟨_, hp.root, rfl⟩, rfl⟩ .nil, by simp⟩
  have hrounds : [(0, l.root.id)].length + l.hung.length ≤ t.segments.length := by
    have hle := length_placed_le h
    rw [length_placed] at hle
    rwa [List.length_singleton, Nat.add_comm]
  obtain ⟨nodes', placed, hall, hnodes', hplaced⟩ :=
    placeAll?_eq hp ((unrecorded_iff h).mpr rfl) hstart rfl hstack hrounds
  refine ⟨placed, hall.trans ?_, .cons ⟨hp.root, rfl⟩ hplaced⟩
  congr 2
  apply Array.ext'
  rw [hnodes'.nodes, Array.toList_append]
  rfl

/-! ### Links from nodes -/

/-- The links to be followed from nodes with numbers, for segments at positions. -/
def linksAt? (segments : List Segment) (placed : List (Nat × Nat)) :
    Option (List (Nat × Segment × TraceId)) := do
  let found ← placed.mapM fun e => segments[e.2]?.map fun s => (e.1, s)
  return found.flatMap fun e => (targets e.2).map fun target => (e.1, e.2, target)

/-- The positions that were given numbers are those of segments. -/
theorem Numbers.mapM {base : Nat} :
    ∀ {placed : List Segment} {first : Nat} {entries : List (Nat × Nat)},
      Numbers t base first entries placed →
      (entries.mapM fun e => t.segments[e.2]?.map fun s => (e.1, s))
        = some ((placed.zipIdx (base + first)).map Prod.swap) := by
  intro placed
  induction placed with
  | nil =>
      intro first entries h
      cases h
      rfl
  | cons s rest ih =>
      intro first entries h
      obtain ⟨⟨node, i⟩, entries, ⟨hs, hnode⟩, hrest, rfl⟩ := List.forall₂_cons_right_iff.mp h
      obtain rfl : node = base + first := hnode
      rw [List.mapM_cons, getElem?_of_mem_copies hs, ih hrest]
      rfl

/-- The links found by positions are those of the segments placed. -/
theorem linksAt?_eq {base : Nat} {placed : List Segment} {entries : List (Nat × Nat)}
    (h : Numbers t base 0 entries placed) :
    linksAt? t.segments entries = some (linksFrom base placed) := by
  rw [linksAt?, h.mapM]
  simp only [Option.bind_eq_bind, Option.bind_some, List.flatMap_map]
  rfl

end

/-! ### Following and entering -/

variable {σ α : Type} {l : Lookup σ} {options : Options}

/-- A computation on an assembly that ends without a result when an index is out of range. -/
abbrev Guarded (σ α : Type) := Assembly σ → Option (Except Failure α × Assembly σ)

/-- A computation that has a result whatever the assembly is. -/
def total (x : Action (Assembly σ) α) : Guarded σ α := fun a => some (x a)

/-- Follows a link, and notes the trace it leads to below the node that holds it. -/
def followAt (l : Lookup σ) (deeper : Option (Trace → Guarded σ Nat)) (holder : Nat) (s : Segment)
    (target : TraceId) : Guarded σ Unit := fun a =>
  if target ∈ a.chain then some (.error (.linkCycle target a.chain), a)
  else
    match deeper with
    | none => some (leave s target .depthLimit a)
    | some enter =>
      match childTrace? l target a with
      | (.error e, a₁) => some (.error e, a₁)
      | (.ok none, a₁) => some (leave s target .notFound a₁)
      | (.ok (some t), a₁) => do
        match ← enter t a₁ with
        | (.error e, a₂) => return (.error e, a₂)
        | (.ok child, a₂) =>
          let nodes ← modifyAt? a₂.nodes holder fun n =>
            { n with children := n.children ++ [child] }
          return (.ok (), { a₂ with nodes })

/-- Follows links, one after the other. -/
def followAllAt (l : Lookup σ) (deeper : Option (Trace → Guarded σ Nat)) :
    List (Nat × Segment × TraceId) → Guarded σ Unit
  | [], a => some (.ok (), a)
  | (holder, s, target) :: rest, a => do
    match ← followAt l deeper holder s target a with
    | (.error e, a₁) => return (.error e, a₁)
    | (.ok (), a₁) => followAllAt l deeper rest a₁

/-- Places the segments of a trace and follows its links. -/
def placeAndFollow (l : Lookup σ) (options : Options) (deeper : Option (Trace → Guarded σ Nat))
    (t : Trace) (designated : Option String) : Guarded σ Nat := fun a => do
  match ← byPosition? t designated options.orphans with
  | .error e => return (.error e, a)
  | .ok p =>
    let s ← t.segments[p.root]?
    let (nodes, placed) ←
      placeAll? t.segments p.below t.segments.length [(a.nodes.size, p.root)]
        (a.nodes.push ⟨s, []⟩)
    if options.fetchChildTraces then
      let links ← linksAt? t.segments ((a.nodes.size, p.root) :: placed)
      match ← followAllAt l deeper links { a with nodes } with
      | (.error e, a₁) => return (.error e, a₁)
      | (.ok (), a₁) => return (.ok a.nodes.size, a₁)
    else return (.ok a.nodes.size, { a with nodes })

/-- Enters a trace, which is on the chain as long as its segments are placed and its links are
followed, and no longer. -/
def enterAt (l : Lookup σ) (options : Options) (deeper : Option (Trace → Guarded σ Nat))
    (t : Trace) (designated : Option String) : Guarded σ Nat := fun a => do
  let (r, a₁) ← placeAndFollow l options deeper t designated { a with chain := a.chain ++ [t.id] }
  return (r, a₁.left)

/-- Enters a trace at a depth, and the traces that its links lead to one deeper, down to the depth
at which none is entered. -/
def spliceAt (l : Lookup σ) (options : Options) (depth : Nat) (t : Trace)
    (designated : Option String) : Guarded σ Nat :=
  enterAt l options
    (if _h : depth < options.maxLinkDepth then
      some fun child => spliceAt l options (depth + 1) child none
    else none) t designated
termination_by options.maxLinkDepth - depth

/-- How a trace that a link leads to is entered, from a depth. -/
def deeperAt (l : Lookup σ) (options : Options) (depth : Nat) : Option (Trace → Guarded σ Nat) :=
  if depth < options.maxLinkDepth then
    some fun child => spliceAt l options (depth + 1) child none
  else none

theorem Frame.size_le {a a' : Assembly σ} (h : Frame a a') : a.nodes.size ≤ a'.nodes.size := by
  simpa using h.segments.length_le

/-- The node that holds a link is there when the link is followed, and still there when the trace it
leads to has been entered. -/
theorem followAt_eq {levels holder : Nat} {a : Assembly σ} (s : Segment) (target : TraceId)
    (h : holder < a.nodes.size) :
    followAt l ((deeper l options levels).map fun enter t => total (enter t)) holder s target a
      = some (follow l (deeper l options levels) holder s target a) := by
  unfold followAt
  rw [follow_eq]
  split
  · rfl
  · cases hdeeper : deeper l options levels with
    | none => rfl
    | some enter =>
        simp only [Option.map_some, total]
        rcases childTrace?_cases l target a with
          ⟨t, a₁, hchild, ho⟩ | ⟨id, st, hchild, -⟩ | ⟨e, st, hchild, -⟩
        · simp only [hchild]
          obtain ⟨n, -, rfl⟩ := deeper_eq_some hdeeper
          rcases henter : splice l options n t none a₁ with ⟨e | child, a₂⟩
          · simp [henter]
          · have hsize : a.nodes.size ≤ a₂.nodes.size := by
              rw [← ho.same.2.1]
              exact ((respected_frame l).splice n henter).size_le
            simp only [henter, Option.bind_eq_bind, Option.bind_some,
              modifyAt?_eq_some _ (Nat.lt_of_lt_of_le h hsize)]
            rfl
        · simp only [hchild]
        · simp only [hchild]

/-- Links whose holders are there are followed by checked numbers as they are without checks. -/
theorem followAllAt_eq (l : Lookup σ) (options : Options) (levels : Nat) :
    ∀ {links : List (Nat × Segment × TraceId)} {a : Assembly σ},
      (∀ link ∈ links, link.1 < a.nodes.size) →
      followAllAt l ((deeper l options levels).map fun enter t => total (enter t)) links a
        = some (followAll l (deeper l options levels) links a) := by
  intro links
  induction links with
  | nil => exact fun _ => rfl
  | cons link rest ih =>
      intro a hlinks
      obtain ⟨holder, s, target⟩ := link
      rw [followAllAt, followAt_eq s target (hlinks _ List.mem_cons_self), followAll,
        Action.bind_apply]
      rcases hfollow : follow l (deeper l options levels) holder s target a with ⟨e | u, a₁⟩
      · rfl
      · have hsize := ((respected_frame l).step (follow_step hfollow)).size_le
        exact ih fun link hlink =>
          Nat.lt_of_lt_of_le (hlinks link (List.mem_cons_of_mem _ hlink)) hsize

/-- A trace is entered by checked numbers as it is without checks, if traces one level deeper
are. -/
theorem enterAt_eq {levels : Nat} (t : Trace) (designated : Option String) (a : Assembly σ) :
    enterAt l options ((deeper l options levels).map fun enter t => total (enter t)) t designated a
      = some (enter l options (deeper l options levels) t designated a) := by
  rw [enter_eq, enterAt, placeAndFollow]
  obtain ⟨result, hresult, hagree⟩ := byPosition?_eq t designated options.orphans
  generalize hlayout : ofTrace t designated options.orphans = layout at hagree
  simp only [Option.bind_eq_bind, Option.bind_some, hresult]
  cases hagree with
  | error e => simp [left]
  | @ok p layout hp =>
      obtain ⟨entries, hall, hnumbers⟩ := placeAll?_root hlayout hp a.nodes
      have hholders : ∀ link ∈ linksOn options a.nodes.size layout,
          link.1 < (a.placed t.id layout).nodes.size := fun link hlink => by
        rw [size_placed]
        exact (holder_lt_of_mem_linksOn hlink).2
      have hfollow := followAllAt_eq l options levels hholders
      simp only [getElem?_of_mem_copies hp.root, Option.bind_some, hall, linksAt?_eq hnumbers]
      simp only [placed, linksOn] at hfollow ⊢
      split
      · next hfetch =>
          rw [if_pos hfetch] at hfollow
          rw [hfollow]
          rcases followAll l _ _ _ with ⟨e | u, a₁⟩ <;> rfl
      · rfl

/-- Entering at a depth looks at the depth only for traces one deeper. -/
theorem spliceAt_eq_enterAt (depth : Nat) (t : Trace) (designated : Option String) :
    spliceAt l options depth t designated
      = enterAt l options (deeperAt l options depth) t designated := by
  rw [spliceAt, deeperAt, dite_eq_ite]

/-- What is entered one deeper is entered with one level less left. -/
theorem deeperAt_eq_of (l : Lookup σ) (options : Options) (depth : Nat)
    (h : ∀ n, options.maxLinkDepth - depth = n + 1 →
      ∀ t designated, spliceAt l options (depth + 1) t designated
        = total (splice l options n t designated)) :
    deeperAt l options depth
      = (deeper l options (options.maxLinkDepth - depth)).map fun enter t => total (enter t) := by
  rw [deeperAt]
  cases hlevels : options.maxLinkDepth - depth with
  | zero => rw [if_neg (by omega), deeper, Option.map_none]
  | succ n =>
      rw [if_pos (by omega), deeper, Option.map_some]
      exact congrArg some (funext fun child => h n hlevels child none)

/-- No index is out of range, and entering at a depth is entering with the levels left there. -/
theorem spliceAt_eq (depth : Nat) (t : Trace) (designated : Option String) :
    spliceAt l options depth t designated
      = total (splice l options (options.maxLinkDepth - depth) t designated) := by
  suffices hall : ∀ levels depth, options.maxLinkDepth - depth = levels → ∀ t designated,
      spliceAt l options depth t designated = total (splice l options levels t designated) from
    hall _ depth rfl t designated
  refine levels_induction fun levels ih depth hlevels t designated => ?_
  have hdeeper := deeperAt_eq_of l options depth fun n hn =>
    ih n (by omega) (depth + 1) (by omega)
  rw [spliceAt_eq_enterAt, hdeeper, hlevels, splice_eq]
  exact funext fun a => enterAt_eq t designated a

/-- Traces one level deeper are entered as they are without checks. -/
theorem deeperAt_eq (depth : Nat) :
    deeperAt l options depth
      = (deeper l options (options.maxLinkDepth - depth)).map fun enter t => total (enter t) :=
  deeperAt_eq_of l options depth fun n hn t designated => by
    rw [spliceAt_eq, show options.maxLinkDepth - (depth + 1) = n by omega]

end CausalTrace.Assembly
