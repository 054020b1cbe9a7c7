import CausalTrace.Proofs.Assembly.Routes
import CausalTrace.Trace.Document
import Mathlib

/-!
# The walk over pending nodes

The ways from a node to the leaves are defined by recursion on what is below the node, but they are
listed by a walk that recurses on nothing: it keeps the nodes still to be met, each with its depth,
and one way that is cut back whenever a node is met.  In an arena without cycles the walk ends, and
what it has listed by then is what the recursion gives, however often nodes are shared and however
often one node stands below another.

## Main definitions

* `Arena.IsDag` — edges lead to nodes, and no way leads back
* `Arena.IsDag.listing` — the ways to the leaves, by recursion on what is below a node
* `Arena.Walk`, `Arena.Walk.next`, `Arena.Walk.after` — the walk, one step at a time

## Main statements

* `Arena.Walk.listed_after` — what the walk lists in a number of steps is what `Arena.trail` gives
* `Arena.Walk.ends` — the walk ends, after as many steps as `Arena.visits` says
* `Arena.paths_eq_listing` — the walk ends with what the recursion lists

## Design notes

`Arena.trail` stops in silence when it has made the steps it was given, so that its result alone
does not show that the walk had ended.  A `Walk` keeps what it has listed and has no next step from
a number that is no node; that it comes to have nothing pending is then a statement of its own.

What ends the recursion is the number of nodes that can be reached from a node
(`Arena.IsDag.card_reach_lt`), and the same number bounds the length of the ways down, so that
`Arena.paths_eq_ways` applies.  What ends the walk is the number of visits that are due to the
pending nodes.
-/

namespace CausalTrace.Arena

open Relation (TransGen)

variable {nodes : Arena}

/-! ### Arenas without cycles -/

/-- Edges lead to nodes, and no way along them leads back to where it came from. -/
structure IsDag (nodes : Arena) : Prop where
  lt_size : ∀ i c, c ∈ children nodes i → c < nodes.size
  acyclic : ∀ i, ¬ TransGen (fun a b => b ∈ children nodes a) i i

open Classical in
/-- The nodes that some way leads to from a node, other than the way that stays there. -/
noncomputable def reach (nodes : Arena) (i : Nat) : Finset Nat :=
  (Finset.range nodes.size).filter fun j => TransGen (fun a b => b ∈ children nodes a) i j

/-- The nodes that can be reached are those at the end of a way down. -/
theorem mem_reach {i j : Nat} :
    j ∈ reach nodes i ↔ j < nodes.size ∧ TransGen (fun a b => b ∈ children nodes a) i j := by
  simp [reach]

theorem card_reach_le (nodes : Arena) (i : Nat) : (reach nodes i).card ≤ nodes.size := by
  rw [← Finset.card_range nodes.size]
  exact Finset.card_le_card fun j hj => Finset.mem_range.mpr (mem_reach.mp hj).1

namespace IsDag

/-- An arena has no cycles if its nodes can be ranked so that every step leads to a lower rank. -/
theorem of_rank (rank : Nat → Nat)
    (h : ∀ i c, c ∈ children nodes i → c < nodes.size ∧ rank c < rank i) : IsDag nodes where
  lt_size i c hc := (h i c hc).1
  acyclic i hcycle := by
    have hfalls : ∀ {a b : Nat}, TransGen (fun a b => b ∈ children nodes a) a b →
        rank b < rank a := by
      intro a b hway
      induction hway with
      | single hc => exact (h _ _ hc).2
      | tail _ hc ih => exact ((h _ _ hc).2).trans ih
    exact Nat.lt_irrefl _ (hfalls hcycle)

/-- From a node below another, fewer nodes can be reached: it cannot be reached itself. -/
theorem card_reach_lt (h : IsDag nodes) {i c : Nat} (hc : c ∈ children nodes i) :
    (reach nodes c).card < (reach nodes i).card := by
  refine Finset.card_lt_card ((Finset.ssubset_iff_of_subset fun j hj => ?_).mpr ⟨c, ?_, ?_⟩)
  · obtain ⟨hlt, hway⟩ := mem_reach.mp hj
    exact mem_reach.mpr ⟨hlt, .head hc hway⟩
  · exact mem_reach.mpr ⟨h.lt_size i c hc, .single hc⟩
  · exact fun hself => h.acyclic c (mem_reach.mp hself).2

/-- A way down has no more steps than nodes can be reached. -/
theorem within_of_card_reach (h : IsDag nodes) {depth : Nat} :
    ∀ {i : Nat}, (reach nodes i).card ≤ depth → Within nodes depth i := by
  induction depth with
  | zero =>
      intro i hi
      refine List.eq_nil_iff_forall_not_mem.mpr fun c hc => ?_
      have := h.card_reach_lt hc
      omega
  | succ depth ih =>
      intro i hi c hc
      have := h.card_reach_lt hc
      exact ih (by omega)

/-- A way down has no more steps than there are nodes. -/
theorem within (h : IsDag nodes) (i : Nat) : Within nodes nodes.size i :=
  h.within_of_card_reach (card_reach_le nodes i)

/-! ### The ways to the leaves, by recursion -/

/-- The ways from a node to the leaves.  From a leaf there is the way that stays there; from any
other node there are those of the nodes below it, in order and as often as they stand there, with
the node itself in front. -/
def listing (h : IsDag nodes) (i : Nat) : List (List Nat) :=
  if children nodes i = [] then [[i]]
  else (children nodes i).attach.flatMap fun c => (h.listing c.1).map (i :: ·)
termination_by (reach nodes i).card
decreasing_by exact h.card_reach_lt c.2

theorem listing_of_leaf (h : IsDag nodes) {i : Nat} (hi : children nodes i = []) :
    h.listing i = [[i]] := by
  rw [listing, if_pos hi]

theorem listing_of_inner (h : IsDag nodes) {i : Nat} (hi : children nodes i ≠ []) :
    h.listing i = (children nodes i).flatMap fun c => (h.listing c).map (i :: ·) := by
  rw [listing, if_neg hi]
  simp

/-- A bound on the length of the ways down makes no difference, once they are within it. -/
theorem ways_eq_listing (h : IsDag nodes) {depth : Nat} :
    ∀ {i : Nat}, Within nodes depth i → ways nodes depth i = h.listing i := by
  induction depth with
  | zero => exact fun hi => (h.listing_of_leaf hi).symm
  | succ depth ih =>
      intro i hi
      by_cases hc : children nodes i = []
      · rw [ways_of_leaf hc, h.listing_of_leaf hc]
      · rw [ways_succ hc, h.listing_of_inner hc]
        exact List.flatMap_congr fun c hmem => by rw [ih (hi c hmem)]

end IsDag

/-! ### Visits -/

/-- The number of visits does not depend on a bound that all ways down are within. -/
theorem visits_succ_of_within {depth : Nat} :
    ∀ {i : Nat}, Within nodes depth i → visits nodes (depth + 1) i = visits nodes depth i := by
  induction depth with
  | zero => exact fun hi => (visits_of_leaf hi 1).trans (visits_of_leaf hi 0).symm
  | succ depth ih =>
      intro i hi
      have hbelow : (children nodes i).map (visits nodes (depth + 1))
          = (children nodes i).map (visits nodes depth) :=
        List.map_congr_left fun c hc => ih (hi c hc)
      rw [visits, hbelow, visits]

/-- A node is met once, and then all below it are met. -/
theorem IsDag.visits_eq (h : IsDag nodes) (i : Nat) :
    visits nodes nodes.size i
      = 1 + ((children nodes i).map (visits nodes nodes.size)).sum := by
  rw [← visits_succ_of_within (h.within i), visits]
  rfl

/-! ### The walk -/

/-- What the walk has in hand. -/
structure Walk where
  /-- The nodes still to be met, each with its depth, the next one first. -/
  pending : List (Nat × Nat)
  /-- The way to the node met last. -/
  way : List Nat
  /-- The ways listed so far. -/
  listed : List (List Nat)

namespace Walk

/-- The walk before its first step. -/
def start (root : Nat) : Walk := ⟨[(root, 0)], [], []⟩

/-- The walk one step later.  No step is left when nothing is pending, and none can be made to a
number that is no node. -/
def next (nodes : Arena) (w : Walk) : Option Walk :=
  match w.pending with
  | [] => none
  | (i, depth) :: pending =>
    nodes[i]?.map fun n =>
      let way := w.way.take depth ++ [i]
      if n.isLeaf then ⟨pending, way, w.listed ++ [way]⟩
      else ⟨n.children.map (fun c => (c, depth + 1)) ++ pending, way, w.listed⟩

/-- The walk a number of steps later. -/
def after (nodes : Arena) : Nat → Walk → Option Walk
  | 0, w => some w
  | steps + 1, w => (w.next nodes).bind (after nodes steps)

/-- What a step does: the next node is a leaf and the way to it is listed, or the nodes below it are
pending in its place. -/
theorem next_cases {w w' : Walk} (h : w.next nodes = some w') :
    ∃ i depth pending, w.pending = (i, depth) :: pending ∧ i < nodes.size ∧
      ((children nodes i = [] ∧
          w' = ⟨pending, w.way.take depth ++ [i], w.listed ++ [w.way.take depth ++ [i]]⟩) ∨
        (children nodes i ≠ [] ∧
          w' = ⟨(children nodes i).map (fun c => (c, depth + 1)) ++ pending,
            w.way.take depth ++ [i], w.listed⟩)) := by
  unfold next at h
  split at h
  · cases h
  next i depth pending hpending =>
    obtain ⟨n, hn, rfl⟩ := Option.map_eq_some_iff.mp h
    refine ⟨i, depth, pending, hpending, (Array.getElem?_eq_some_iff.mp hn).1, ?_⟩
    rw [children_of_getElem? hn]
    by_cases hleaf : n.children = []
    · exact .inl ⟨hleaf, if_pos (List.isEmpty_iff.mpr hleaf)⟩
    · exact .inr ⟨hleaf, if_neg fun hempty => hleaf (List.isEmpty_iff.mp hempty)⟩

theorem trail_nil (nodes : Arena) (steps : Nat) (way : List Nat) :
    trail nodes steps [] way = [] := by
  cases steps <;> rfl

/-- A step lists what `trail` gives first. -/
theorem listed_next {w w' : Walk} (h : w.next nodes = some w') (steps : Nat) :
    w.listed ++ trail nodes (steps + 1) w.pending w.way
      = w'.listed ++ trail nodes steps w'.pending w'.way := by
  obtain ⟨i, depth, pending, hpending, -, ⟨hc, rfl⟩ | ⟨hc, rfl⟩⟩ := next_cases h
  · simp [hpending, trail, hc]
  · rw [hpending, trail]
    split
    next hnil => exact absurd hnil hc
    next => rfl

/-- What the walk lists in a number of steps, and in further ones. -/
theorem listed_after {steps : Nat} {w w' : Walk} (h : w.after nodes steps = some w') (more : Nat) :
    w.listed ++ trail nodes (steps + more) w.pending w.way
      = w'.listed ++ trail nodes more w'.pending w'.way := by
  induction steps generalizing w with
  | zero =>
      cases h
      rw [Nat.zero_add]
  | succ steps ih =>
      obtain ⟨w₁, hnext, hrest⟩ := Option.bind_eq_some_iff.mp h
      rw [Nat.add_right_comm, listed_next hnext, ih hrest]

/-! ### The end of the walk -/

/-- The number of visits due to the pending nodes. -/
def load (nodes : Arena) (w : Walk) : Nat :=
  ((w.pending.map Prod.fst).map (visits nodes nodes.size)).sum

/-- A step can be made as long as nodes are pending, leads to nodes again, and takes one visit off
the load. -/
theorem exists_next (h : IsDag nodes) {w : Walk} (hw : ∀ p ∈ w.pending, p.1 < nodes.size)
    (hne : w.pending ≠ []) :
    ∃ w', w.next nodes = some w' ∧ (∀ p ∈ w'.pending, p.1 < nodes.size) ∧
      w.load nodes = w'.load nodes + 1 := by
  obtain ⟨⟨i, depth⟩, pending, hpending⟩ := List.exists_cons_of_ne_nil hne
  rw [hpending, List.forall_mem_cons] at hw
  have hnext : ∃ w', w.next nodes = some w' := by
    simp [next, hpending, hw.1]
  obtain ⟨w', hw'⟩ := hnext
  obtain ⟨j, depth', pending', hpending', -, hcases⟩ := next_cases hw'
  obtain ⟨⟨rfl, rfl⟩, rfl⟩ := List.cons.inj (hpending.symm.trans hpending')
  refine ⟨w', hw', ?_⟩
  have hload := h.visits_eq i
  rcases hcases with ⟨hc, rfl⟩ | ⟨-, rfl⟩
  · refine ⟨hw.2, ?_⟩
    simp only [load, hpending, List.map_cons, List.sum_cons, hload, hc, List.map_nil, List.sum_nil]
    omega
  · refine ⟨fun p hp => ?_, ?_⟩
    · rcases List.mem_append.mp hp with hp | hp
      · obtain ⟨c, hc, rfl⟩ := List.mem_map.mp hp
        exact h.lt_size i c hc
      · exact hw.2 p hp
    · have hbelow : ((children nodes i).map fun c => (c, depth + 1)).map Prod.fst
          = children nodes i := by
        simp [Function.comp_def]
      simp only [load, hpending, List.map_cons, List.sum_cons, hload, List.map_append,
        List.sum_append, hbelow]
      omega

/-- The walk ends when as many steps have been made as visits were due. -/
theorem ends (h : IsDag nodes) {w : Walk} (hw : ∀ p ∈ w.pending, p.1 < nodes.size) :
    ∃ w', w.after nodes (w.load nodes) = some w' ∧ w'.pending = [] := by
  generalize hload : w.load nodes = steps
  induction steps generalizing w with
  | zero =>
      refine ⟨w, rfl, ?_⟩
      by_contra hne
      obtain ⟨w', -, -, hw'⟩ := exists_next h hw hne
      omega
  | succ steps ih =>
      have hne : w.pending ≠ [] := by
        intro hnil
        simp [load, hnil] at hload
      obtain ⟨w₁, hnext, hw₁, hload₁⟩ := exists_next h hw hne
      obtain ⟨w', hafter, hend⟩ := ih hw₁ (by omega)
      exact ⟨w', Option.bind_eq_some_iff.mpr ⟨w₁, hnext, hafter⟩, hend⟩

end Walk

/-- In an arena without cycles the walk from a node ends, having listed the ways to the leaves as
the recursion lists them; these are the paths, and further steps change nothing. -/
theorem paths_eq_listing (h : IsDag nodes) {root : Nat} (hroot : root < nodes.size) :
    (∃ way, (Walk.start root).after nodes (visits nodes nodes.size root)
        = some ⟨[], way, h.listing root⟩) ∧
      paths nodes root = h.listing root ∧
      ∀ steps, visits nodes nodes.size root ≤ steps →
        trail nodes steps [(root, 0)] [] = h.listing root := by
  have hpaths : paths nodes root = h.listing root :=
    (paths_eq_ways (h.within root)).trans (h.ways_eq_listing (h.within root))
  obtain ⟨⟨pending, way, listed⟩, hafter, rfl⟩ := Walk.ends h (w := .start root)
    fun p hp => List.mem_singleton.mp hp ▸ hroot
  have hload : (Walk.start root).load nodes = visits nodes nodes.size root := Nat.add_zero _
  rw [hload] at hafter
  -- what has been listed is what the walk gives in that many steps, or in more
  have hlisted : ∀ more, trail nodes (visits nodes nodes.size root + more) [(root, 0)] []
      = listed := by
    intro more
    have hall := Walk.listed_after hafter more
    rwa [Walk.trail_nil, List.append_nil] at hall
  have hlisting : listed = h.listing root := (hlisted 0).symm.trans hpaths
  refine ⟨⟨way, hlisting ▸ hafter⟩, hpaths, fun steps hsteps => ?_⟩
  obtain ⟨more, rfl⟩ := Nat.exists_eq_add_of_le hsteps
  exact (hlisted more).trans hlisting

namespace Sample

/-- A node with others below it. -/
def node (below : List Nat) : Node := ⟨({} : WireSegment).segment "a" ⟨"1-a"⟩ [], below⟩

/-- Nodes that are numbered from the leaf upwards.  The leaf is shared, and one node stands twice
below the node at the top. -/
def diamond : Arena := #[node [], node [0], node [0, 1], node [2, 1, 2]]

theorem isDag_diamond : IsDag diamond := by
  refine .of_rank id fun i c hc => ?_
  obtain ⟨n, hn, -⟩ := getElem?_of_mem_children hc
  have hi : i < 4 := (Array.getElem?_eq_some_iff.mp hn).1
  have hall : ∀ i < 4, ∀ c ∈ children diamond i, c < 4 ∧ c < i := by decide
  exact hall i hi c hc

end Sample

/-- Five ways lead down through the diamond, and the walk lists them in eleven steps. -/
theorem paths_eq_listing_sample :
    IsDag Sample.diamond ∧ 3 < Sample.diamond.size ∧
      (∃ way, (Walk.start 3).after Sample.diamond 11
        = some ⟨[], way, [[3, 2, 0], [3, 2, 1, 0], [3, 1, 0], [3, 2, 0], [3, 2, 1, 0]]⟩) ∧
      Sample.isDag_diamond.listing 3
        = [[3, 2, 0], [3, 2, 1, 0], [3, 1, 0], [3, 2, 0], [3, 2, 1, 0]] := by
  have hroot : 3 < Sample.diamond.size := by decide
  obtain ⟨⟨way, hafter⟩, hpaths, -⟩ := paths_eq_listing Sample.isDag_diamond hroot
  have hlisting : Sample.isDag_diamond.listing 3
      = [[3, 2, 0], [3, 2, 1, 0], [3, 1, 0], [3, 2, 0], [3, 2, 1, 0]] :=
    hpaths.symm.trans (by decide)
  rw [hlisting] at hafter
  exact ⟨Sample.isDag_diamond, hroot, ⟨way, hafter⟩, hlisting⟩

end CausalTrace.Arena
