import CausalTrace.Assembly.Path
import Mathlib.Data.List.Chain
import Mathlib.Data.List.Nodup
import Mathlib.Data.List.Perm.Basic

/-!
# Routes through an arena

A route is a list of nodes each of which is below the one before it.  The paths that the walk over
pending nodes gives are the routes that end at a leaf, children in order (`Arena.paths_eq_ways`).

An arena is a **tree** (`Arena.IsTree`) when children have greater numbers than the nodes they are
below, and the lists of children together hold every number but zero exactly once.  Then exactly one
route leads from the root to each node, and the paths are as many as the leaves.

## Main definitions

* `Arena.IsRoute`, `Arena.ways` — routes, and the recursion that lists those to the leaves
* `Arena.IsTree`

## Main statements

* `Arena.paths_eq_ways` — the walk gives what the recursion gives
* `Arena.IsTree.existsUnique_route`
* `Arena.IsTree.mem_paths`, `Arena.IsTree.nodup_paths`, `Arena.IsTree.length_paths`

## Design notes

`ways` recurses on a bound on the length of the ways down (`Arena.Within`), since an arena as such
may have cycles.  Routes are taken apart at their first node when they are compared with `ways`, and
at their last node when uniqueness is shown, because there the parent is unique.
-/

namespace CausalTrace.Arena

variable {nodes : Arena}

/-! ### Children -/

theorem children_of_getElem? {i : Nat} {n : Node} (h : nodes[i]? = some n) :
    children nodes i = n.children := by
  simp [children, h]

theorem getElem?_of_mem_children {i c : Nat} (h : c ∈ children nodes i) :
    ∃ n, nodes[i]? = some n ∧ c ∈ n.children := by
  unfold children at h
  cases hn : nodes[i]? with
  | none => simp [hn] at h
  | some n => exact ⟨n, rfl, by simpa [hn] using h⟩

/-- The numbers below all nodes, node by node. -/
def allChildren (nodes : Arena) : List Nat := nodes.toList.flatMap Node.children

theorem map_children (nodes : Arena) :
    nodes.toList.map Node.children = (List.range nodes.size).map (children nodes) := by
  apply List.ext_getElem (by simp)
  intro i hi _
  have hlt : i < nodes.size := by simpa using hi
  simp [children, hlt]

/-- All numbers below nodes, by the numbers of the nodes. -/
theorem allChildren_eq (nodes : Arena) :
    allChildren nodes = (List.range nodes.size).flatMap (children nodes) := by
  rw [allChildren, List.flatMap_def, map_children, ← List.flatMap_def]

theorem mem_allChildren {c : Nat} : c ∈ allChildren nodes ↔ ∃ i, c ∈ children nodes i := by
  unfold allChildren
  rw [List.mem_flatMap]
  constructor
  · rintro ⟨n, hn, hc⟩
    obtain ⟨i, hi⟩ := List.mem_iff_getElem?.mp hn
    refine ⟨i, ?_⟩
    rw [children_of_getElem? (by simpa using hi)]
    exact hc
  · rintro ⟨i, hc⟩
    obtain ⟨n, hn, hc⟩ := getElem?_of_mem_children hc
    exact ⟨n, by simpa using Array.mem_of_getElem? hn, hc⟩

/-! ### Routes -/

/-- A list of nodes from `i` to `j`, each below the one before it. -/
def IsRoute (nodes : Arena) (i j : Nat) (route : List Nat) : Prop :=
  route.head? = some i ∧ route.getLast? = some j ∧
    route.IsChain fun a b => b ∈ children nodes a

theorem isRoute_singleton (i : Nat) : IsRoute nodes i i [i] := ⟨rfl, rfl, .singleton i⟩

/-- A route taken apart at its first node. -/
theorem isRoute_cons {i j a : Nat} {rest : List Nat} :
    IsRoute nodes i j (a :: rest) ↔
      a = i ∧ ((rest = [] ∧ i = j) ∨ ∃ c ∈ children nodes i, IsRoute nodes c j rest) := by
  cases rest with
  | nil => simp [IsRoute]; grind
  | cons c rest =>
      simp only [IsRoute, List.head?_cons, Option.some.injEq, List.getLast?_cons_cons,
        List.isChain_cons_cons, reduceCtorEq, false_and, false_or]
      constructor
      · rintro ⟨rfl, hlast, hc, hchain⟩
        exact ⟨rfl, c, hc, rfl, hlast, hchain⟩
      · rintro ⟨rfl, d, hd, rfl, hlast, hchain⟩
        exact ⟨rfl, hlast, hd, hchain⟩

theorem IsRoute.ne_nil {i j : Nat} {route : List Nat} (h : IsRoute nodes i j route) :
    route ≠ [] := by
  rintro rfl
  exact absurd h.1 (by simp)

/-- A route taken apart at its last node. -/
theorem isRoute_concat {i k b : Nat} {route : List Nat} :
    IsRoute nodes i k (route ++ [b]) ↔
      b = k ∧ ((route = [] ∧ i = k) ∨ ∃ j, IsRoute nodes i j route ∧ k ∈ children nodes j) := by
  cases hl : route.getLast? with
  | none =>
      obtain rfl := List.getLast?_eq_none_iff.mp hl
      simp only [List.nil_append, isRoute_cons, true_and]
      constructor
      · rintro ⟨rfl, rfl | ⟨c, -, hc⟩⟩
        · exact ⟨rfl, .inl rfl⟩
        · exact absurd rfl hc.ne_nil
      · rintro ⟨rfl, rfl | ⟨j, hj, -⟩⟩
        · exact ⟨rfl, .inl rfl⟩
        · exact absurd rfl hj.ne_nil
  | some j =>
      have hne : route ≠ [] := by
        rintro rfl
        simp at hl
      simp only [IsRoute, List.head?_append_of_ne_nil _ hne, List.getLast?_concat, hne, false_and,
        false_or, List.isChain_append, hl, Option.mem_def, Option.some.injEq, forall_eq',
        List.head?_cons, List.isChain_singleton, true_and]
      constructor
      · rintro ⟨hhead, rfl, hchain, hk⟩
        exact ⟨rfl, j, ⟨hhead, rfl, hchain⟩, hk⟩
      · rintro ⟨rfl, j', ⟨hhead, rfl, hchain⟩, hk⟩
        exact ⟨hhead, rfl, hchain, hk⟩

/-! ### The paths, by recursion -/

/-- Every way down from a node takes at most a number of steps. -/
def Within (nodes : Arena) : Nat → Nat → Prop
  | 0, i => children nodes i = []
  | depth + 1, i => ∀ c ∈ children nodes i, Within nodes depth c

/-- The ways from a node to the leaves, down to a depth. -/
def ways (nodes : Arena) : Nat → Nat → List (List Nat)
  | 0, i => [[i]]
  | depth + 1, i =>
    match children nodes i with
    | [] => [[i]]
    | below => below.flatMap fun c => (ways nodes depth c).map (i :: ·)

theorem ways_of_leaf {i : Nat} (h : children nodes i = []) (depth : Nat) :
    ways nodes depth i = [[i]] := by
  cases depth with
  | zero => rfl
  | succ depth => simp [ways, h]

/-- From any other node the ways go on from the nodes below it. -/
theorem ways_succ {i : Nat} (h : children nodes i ≠ []) (depth : Nat) :
    ways nodes (depth + 1) i
      = (children nodes i).flatMap fun c => (ways nodes depth c).map (i :: ·) := by
  rw [ways]
  split
  · next hc => exact absurd hc h
  · rfl

theorem visits_of_leaf {i : Nat} (h : children nodes i = []) (depth : Nat) :
    visits nodes depth i = 1 := by
  cases depth with
  | zero => rfl
  | succ depth => simp [visits, h]

/-- The walk over the nodes below one, when each of them is walked over as `ways` says. -/
theorem trail_children {depth : Nat}
    (ih : ∀ {i k : Nat} (pending : List (Nat × Nat)) {way : List Nat} (steps : Nat),
      Within nodes depth i → k ≤ way.length →
      ∃ way', way'.take k = way.take k ∧ k ≤ way'.length ∧
        trail nodes (visits nodes depth i + steps) ((i, k) :: pending) way
          = (ways nodes depth i).map (way.take k ++ ·) ++ trail nodes steps pending way')
    {k : Nat} (pending : List (Nat × Nat)) :
    ∀ {below : List Nat} {way : List Nat} (steps : Nat),
      (∀ c ∈ below, Within nodes depth c) → k ≤ way.length →
      ∃ way', way'.take k = way.take k ∧ k ≤ way'.length ∧
        trail nodes ((below.map (visits nodes depth)).foldr (· + ·) 0 + steps)
            (below.map (fun c => (c, k)) ++ pending) way
          = (below.flatMap fun c => (ways nodes depth c).map (way.take k ++ ·))
            ++ trail nodes steps pending way' := by
  intro below
  induction below with
  | nil =>
      intro way steps _ hk
      exact ⟨way, rfl, hk, by simp⟩
  | cons c rest ihrest =>
      intro way steps hw hk
      obtain ⟨way₁, htake₁, hk₁, hfirst⟩ := ih (rest.map (fun c => (c, k)) ++ pending)
        ((rest.map (visits nodes depth)).foldr (· + ·) 0 + steps) (hw c List.mem_cons_self) hk
      obtain ⟨way₂, htake₂, hk₂, hrest⟩ := ihrest steps
        (fun d hd => hw d (List.mem_cons_of_mem _ hd)) hk₁
      refine ⟨way₂, htake₂.trans htake₁, hk₂, ?_⟩
      rw [List.map_cons, List.foldr_cons, Nat.add_assoc, List.map_cons, List.cons_append, hfirst,
        hrest, htake₁, List.flatMap_cons, List.append_assoc]

/-- The walk over a node and all below it.  The way that the walk has in hand afterwards agrees with
the one before down to the depth of the node, and that is all that the pending nodes read of it. -/
theorem trail_ways (depth : Nat) :
    ∀ {i k : Nat} (pending : List (Nat × Nat)) {way : List Nat} (steps : Nat),
      Within nodes depth i → k ≤ way.length →
      ∃ way', way'.take k = way.take k ∧ k ≤ way'.length ∧
        trail nodes (visits nodes depth i + steps) ((i, k) :: pending) way
          = (ways nodes depth i).map (way.take k ++ ·) ++ trail nodes steps pending way' := by
  have hleaf : ∀ {d i k : Nat} (pending : List (Nat × Nat)) {way : List Nat} (steps : Nat),
      children nodes i = [] → k ≤ way.length →
      ∃ way', way'.take k = way.take k ∧ k ≤ way'.length ∧
        trail nodes (visits nodes d i + steps) ((i, k) :: pending) way
          = (ways nodes d i).map (way.take k ++ ·) ++ trail nodes steps pending way' := by
    intro d i k pending way steps hc hk
    -- the way in hand ends at this leaf; above the leaf it is as it was
    refine ⟨way.take k ++ [i], ?_, by simp [hk], ?_⟩
    · rw [List.take_append_of_le_length (by simp [hk]), List.take_take, Nat.min_self]
    · rw [visits_of_leaf hc, ways_of_leaf hc, Nat.add_comm 1 steps]
      simp [trail, hc]
  induction depth with
  | zero =>
      intro i k pending way steps hw hk
      exact hleaf pending steps hw hk
  | succ depth ih =>
      intro i k pending way steps hw hk
      by_cases hc : children nodes i = []
      · exact hleaf pending steps hc hk
      · have hway : (way.take k ++ [i]).take (k + 1) = way.take k ++ [i] :=
          List.take_of_length_le (by
            rw [List.length_append, List.length_singleton, List.length_take]
            omega)
        obtain ⟨way', htake, hk', htrail⟩ := trail_children ih (k := k + 1) pending steps
          (show ∀ c ∈ children nodes i, Within nodes depth c from hw)
          (show k + 1 ≤ (way.take k ++ [i]).length by simp [hk])
        refine ⟨way', ?_, by omega, ?_⟩
        · have hcut := congrArg (List.take k) htake
          rw [List.take_take, Nat.min_eq_left (by omega), hway,
            List.take_append_of_le_length (by simp [hk]), List.take_take, Nat.min_self] at hcut
          exact hcut
        · have hsteps : visits nodes (depth + 1) i + steps
              = ((children nodes i).map (visits nodes depth)).foldr (· + ·) 0 + steps + 1 := by
            rw [visits]
            omega
          rw [hsteps, trail]
          split
          · next h => exact absurd h hc
          · rw [htrail, hway, ways_succ hc, List.map_flatMap]
            simp [Function.comp_def]

/-- The walk over pending nodes gives the ways to the leaves, as the recursion lists them. -/
theorem paths_eq_ways {root : Nat} (h : Within nodes nodes.size root) :
    paths nodes root = ways nodes nodes.size root := by
  obtain ⟨way, -, -, htrail⟩ := trail_ways nodes.size [] 0 h
    (show 0 ≤ ([] : List Nat).length from Nat.zero_le _)
  unfold paths
  simpa [trail] using htrail

/-- The only route from a leaf is the leaf itself. -/
theorem isRoute_of_leaf {i j : Nat} {route : List Nat} (h : children nodes i = []) :
    IsRoute nodes i j route ↔ route = [i] ∧ i = j := by
  cases route with
  | nil => simp [IsRoute]
  | cons a rest =>
      rw [isRoute_cons, h]
      constructor
      · rintro ⟨rfl, ⟨rfl, rfl⟩ | ⟨c, hc, -⟩⟩
        · exact ⟨rfl, rfl⟩
        · cases hc
      · rintro ⟨hr, rfl⟩
        cases hr
        exact ⟨rfl, .inl ⟨rfl, rfl⟩⟩

/-- The ways to the leaves are the routes to the leaves. -/
theorem mem_ways {depth : Nat} :
    ∀ {i : Nat} {route : List Nat}, Within nodes depth i →
      (route ∈ ways nodes depth i ↔ ∃ j, IsRoute nodes i j route ∧ children nodes j = []) := by
  have hleaf : ∀ {d i : Nat} {route : List Nat}, children nodes i = [] →
      (route ∈ ways nodes d i ↔ ∃ j, IsRoute nodes i j route ∧ children nodes j = []) := by
    intro d i route hc
    simp only [ways_of_leaf hc, List.mem_singleton, isRoute_of_leaf hc]
    constructor
    · rintro rfl
      exact ⟨i, ⟨rfl, rfl⟩, hc⟩
    · rintro ⟨j, ⟨rfl, -⟩, -⟩
      rfl
  -- leaves are dealt with first: they come up both at depth zero and above
  induction depth with
  | zero =>
      intro i route hw
      exact hleaf hw
  | succ depth ih =>
      intro i route hw
      by_cases hc : children nodes i = []
      · exact hleaf hc
      · rw [ways_succ hc, List.mem_flatMap]
        constructor
        · rintro ⟨c, hmem, hroute⟩
          obtain ⟨rest, hrest, rfl⟩ := List.mem_map.mp hroute
          obtain ⟨j, hj, hend⟩ := (ih (hw c hmem)).mp hrest
          exact ⟨j, isRoute_cons.mpr ⟨rfl, .inr ⟨c, hmem, hj⟩⟩, hend⟩
        · rintro ⟨j, hj, hend⟩
          obtain ⟨a, rest, rfl⟩ := List.exists_cons_of_ne_nil hj.ne_nil
          obtain ⟨rfl, ⟨-, rfl⟩ | ⟨c, hmem, hrest⟩⟩ := isRoute_cons.mp hj
          · exact absurd hend hc
          · exact ⟨c, hmem, List.mem_map_of_mem ((ih (hw c hmem)).mpr ⟨j, hrest, hend⟩)⟩

/-- No way to a leaf is listed twice, if no node stands twice below another. -/
theorem nodup_ways (hnd : ∀ i, (children nodes i).Nodup) {depth : Nat} :
    ∀ {i : Nat}, Within nodes depth i → (ways nodes depth i).Nodup := by
  induction depth with
  | zero =>
      intro i hw
      simp [ways]
  | succ depth ih =>
      intro i hw
      by_cases hc : children nodes i = []
      · simp [ways_of_leaf hc]
      · rw [ways_succ hc, List.nodup_flatMap]
        refine ⟨fun c hmem => (ih (hw c hmem)).map (List.cons_injective), ?_⟩
        -- ways through different children differ in the node behind the first
        refine (hnd i).imp_of_mem ?_
        intro c d hcmem hdmem hne route hroute hroute'
        obtain ⟨rest, hrest, rfl⟩ := List.mem_map.mp hroute
        obtain ⟨rest', hrest', heq⟩ := List.mem_map.mp hroute'
        obtain rfl := List.cons_injective heq
        obtain ⟨j, hj, -⟩ := (mem_ways (hw c hcmem)).mp hrest
        obtain ⟨j', hj', -⟩ := (mem_ways (hw d hdmem)).mp hrest'
        exact hne (Option.some.inj (hj.1.symm.trans hj'.1))

/-! ### Trees -/

/-- The nodes form one tree with its root at number zero. -/
structure IsTree (nodes : Arena) : Prop where
  /-- There is a root. -/
  pos : 0 < nodes.size
  /-- What is below a node has a greater number. -/
  ascends : ∀ i c, c ∈ children nodes i → i < c
  /-- Every number but that of the root is below exactly one node, once. -/
  once : (allChildren nodes).Perm (List.range' 1 (nodes.size - 1))

namespace IsTree

/-- Every number but the root stands below a node. -/
theorem mem_allChildren_iff (h : IsTree nodes) {c : Nat} :
    c ∈ allChildren nodes ↔ 0 < c ∧ c < nodes.size := by
  have := h.pos
  rw [h.once.mem_iff, List.mem_range'_1]
  omega

theorem lt_size (h : IsTree nodes) {i c : Nat} (hc : c ∈ children nodes i) : c < nodes.size :=
  (h.mem_allChildren_iff.mp (mem_allChildren.mpr ⟨i, hc⟩)).2

theorem nodup_allChildren (h : IsTree nodes) : (allChildren nodes).Nodup :=
  h.once.nodup_iff.mpr List.nodup_range'

/-- No node stands twice below one. -/
theorem nodup_children (h : IsTree nodes) (i : Nat) : (children nodes i).Nodup := by
  cases hn : nodes[i]? with
  | none => simp [children, hn]
  | some n =>
      rw [children_of_getElem? hn]
      exact (List.nodup_flatMap.mp h.nodup_allChildren).1 n
        (by simpa using Array.mem_of_getElem? hn)

/-- Two nodes have no child in common. -/
theorem parent_unique (h : IsTree nodes) {i j c : Nat} (hi : c ∈ children nodes i)
    (hj : c ∈ children nodes j) : i = j := by
  have hpairs := (List.nodup_flatMap.mp h.nodup_allChildren).2
  have hdisjoint : ∀ {i j : Nat}, c ∈ children nodes i → c ∈ children nodes j → ¬ i < j := by
    intro i j hi hj hij
    obtain ⟨m, hm, hcm⟩ := getElem?_of_mem_children hi
    obtain ⟨n, hn, hcn⟩ := getElem?_of_mem_children hj
    rw [← Array.getElem?_toList, List.getElem?_eq_some_iff] at hm hn
    obtain ⟨hmlt, rfl⟩ := hm
    obtain ⟨hnlt, rfl⟩ := hn
    exact List.pairwise_iff_getElem.mp hpairs i j hmlt hnlt hij hcm hcn
  exact Nat.le_antisymm (Nat.le_of_not_lt (hdisjoint hj hi)) (Nat.le_of_not_lt (hdisjoint hi hj))

/-- Exactly one route leads from the root to each node. -/
theorem existsUnique_route (h : IsTree nodes) :
    ∀ {j : Nat}, j < nodes.size → ∃! route, IsRoute nodes 0 j route := by
  intro j
  -- every route to a node ends with the step from its parent, which has a smaller number
  induction j using Nat.strong_induction_on with
  | _ j ih =>
      intro hj
      rcases Nat.eq_zero_or_pos j with rfl | hpos
      · refine ⟨[0], isRoute_singleton 0, ?_⟩
        intro route hroute
        obtain ⟨front, k, rfl⟩ := (List.eq_nil_or_concat' route).resolve_left hroute.ne_nil
        obtain ⟨rfl, ⟨rfl, -⟩ | ⟨i, -, hmem⟩⟩ := isRoute_concat.mp hroute
        · rfl
        · exact absurd (h.ascends i 0 hmem) (Nat.not_lt_zero i)
      · obtain ⟨i, hi⟩ := mem_allChildren.mp (h.mem_allChildren_iff.mpr ⟨hpos, hj⟩)
        have hij := h.ascends i j hi
        obtain ⟨front, hfront, huniq⟩ := ih i hij (by omega)
        refine ⟨front ++ [j], isRoute_concat.mpr ⟨rfl, .inr ⟨i, hfront, hi⟩⟩, ?_⟩
        intro route hroute
        obtain ⟨front', k, rfl⟩ := (List.eq_nil_or_concat' route).resolve_left hroute.ne_nil
        obtain ⟨rfl, ⟨-, rfl⟩ | ⟨i', hfront', hi'⟩⟩ := isRoute_concat.mp hroute
        · exact absurd hpos (Nat.lt_irrefl 0)
        · obtain rfl := h.parent_unique hi' hi
          rw [huniq front' hfront']

/-- A way down takes fewer steps than there are nodes. -/
theorem within (h : IsTree nodes) : ∀ {depth i : Nat}, nodes.size ≤ depth + i + 1 →
    Within nodes depth i := by
  intro depth
  induction depth with
  | zero =>
      intro i hi
      refine List.eq_nil_iff_forall_not_mem.mpr fun c hc => ?_
      have h₁ := h.ascends i c hc
      have h₂ := h.lt_size hc
      omega
  | succ depth ih =>
      intro i hi c hc
      have h₁ := h.ascends i c hc
      exact ih (by omega)

/-- The paths are the routes from the root to the leaves. -/
theorem mem_paths (h : IsTree nodes) {route : List Nat} :
    route ∈ paths nodes 0 ↔ ∃ j, IsRoute nodes 0 j route ∧ children nodes j = [] := by
  have hw : Within nodes nodes.size 0 := h.within (by omega)
  rw [paths_eq_ways hw, mem_ways hw]

/-- No path is listed twice. -/
theorem nodup_paths (h : IsTree nodes) : (paths nodes 0).Nodup := by
  have hw : Within nodes nodes.size 0 := h.within (by omega)
  rw [paths_eq_ways hw]
  exact nodup_ways h.nodup_children hw

theorem last_lt_size (h : IsTree nodes) {j : Nat} {route : List Nat}
    (hr : IsRoute nodes 0 j route) : j < nodes.size := by
  obtain ⟨front, k, rfl⟩ := (List.eq_nil_or_concat' route).resolve_left hr.ne_nil
  obtain ⟨rfl, ⟨-, rfl⟩ | ⟨i, -, hi⟩⟩ := isRoute_concat.mp hr
  · exact h.pos
  · exact h.lt_size hi

/-- Each leaf ends exactly one path. -/
theorem existsUnique_path (h : IsTree nodes) {j : Nat} (hj : j < nodes.size)
    (hend : children nodes j = []) :
    ∃! route, route ∈ paths nodes 0 ∧ route.getLast? = some j := by
  obtain ⟨route, hroute, huniq⟩ := h.existsUnique_route hj
  refine ⟨route, ⟨h.mem_paths.mpr ⟨j, hroute, hend⟩, hroute.2.1⟩, ?_⟩
  rintro other ⟨hmem, hlast⟩
  obtain ⟨j', hother, -⟩ := h.mem_paths.mp hmem
  obtain rfl := Option.some.inj (hlast.symm.trans hother.2.1)
  exact huniq other hother

/-- The paths are as many as the leaves. -/
theorem length_paths (h : IsTree nodes) :
    (paths nodes 0).length = nodes.toList.countP Node.isLeaf := by
  have hleaves : nodes.toList.countP Node.isLeaf
      = ((List.range nodes.size).filter fun j => (children nodes j).isEmpty).length := by
    rw [← List.countP_eq_length_filter]
    have hcount := congrArg (List.countP List.isEmpty) (map_children nodes)
    rwa [List.countP_map, List.countP_map] at hcount
  -- paths are counted by their last nodes: each is a leaf, and no leaf is the end of two
  have hperm : ((paths nodes 0).map List.getLast?).Perm
      (((List.range nodes.size).filter fun j => (children nodes j).isEmpty).map some) := by
    rw [List.perm_ext_iff_of_nodup]
    · intro last
      simp only [List.mem_map, h.mem_paths, List.mem_filter, List.mem_range, List.isEmpty_iff]
      constructor
      · rintro ⟨route, ⟨j, hj, hend⟩, rfl⟩
        exact ⟨j, ⟨h.last_lt_size hj, hend⟩, hj.2.1.symm⟩
      · rintro ⟨j, ⟨hlt, hend⟩, rfl⟩
        obtain ⟨route, hroute, -⟩ := h.existsUnique_route hlt
        exact ⟨route, ⟨j, hroute, hend⟩, hroute.2.1⟩
    · refine List.Nodup.map_on ?_ h.nodup_paths
      intro route hroute other hother hlast
      obtain ⟨j, hj, hend⟩ := h.mem_paths.mp hroute
      exact (h.existsUnique_path (h.last_lt_size hj) hend).unique ⟨hroute, hj.2.1⟩
        ⟨hother, hlast ▸ hj.2.1⟩
    · exact (List.nodup_range.filter _).map fun _ _ => Option.some.inj
  rw [hleaves, ← List.length_map (f := List.getLast?), hperm.length_eq, List.length_map]

end IsTree

end CausalTrace.Arena
