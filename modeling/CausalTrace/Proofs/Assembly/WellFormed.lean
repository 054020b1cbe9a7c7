import CausalTrace.Proofs.Assembly.Journal
import CausalTrace.Proofs.Backend.Frozen

/-!
# Trees that are built are well formed

Whatever a backend answers, the nodes of a tree that is built form one tree in the sense of graphs,
and its paths are the ways from the root to the leaves, one for each leaf.

## Main definitions

* `Tree.WellFormed`

## Main statements

* `Tree.wellFormed_of_build` — every tree that is built is well formed
* `Store.Sample.build_store` — a run in which links are followed, missed, and too deep

## Design notes

The backend may answer each call differently, so nothing is known of the traces that are placed, and
nothing needs to be known: the journal of a tree gives its nodes their numbers.
-/

namespace CausalTrace

/-! ### Well-formedness -/

/-- The nodes of a tree form one tree with its root at number zero, and its paths are the routes
from the root to the leaves. -/
structure Tree.WellFormed (t : Tree) : Prop where
  root : t.root = 0
  /-- What is below a node is a node, and comes after it. -/
  ascends : ∀ i c, c ∈ Arena.children t.nodes i → i < c ∧ c < t.nodes.size
  /-- Every node but the root is once among all lists of children, and the root is in none. -/
  once : ∀ c, (Arena.allChildren t.nodes).count c = if 0 < c ∧ c < t.nodes.size then 1 else 0
  /-- Exactly one route leads from the root to each node. -/
  reached : ∀ j, j < t.nodes.size → ∃! route, Arena.IsRoute t.nodes t.root j route
  /-- There are as many paths as leaves. -/
  leaves : t.leafCount = t.nodes.toList.countP Node.isLeaf
  distinct : t.paths.Nodup
  /-- Every path is a route from the root to a leaf. -/
  paths : ∀ path ∈ t.paths, ∃ j n, Arena.IsRoute t.nodes t.root j path ∧ t.nodes[j]? = some n ∧
    n.isLeaf = true
  /-- Every leaf ends exactly one path. -/
  ends : ∀ j n, t.nodes[j]? = some n → n.isLeaf = true →
    ∃! path, path ∈ t.paths ∧ path.getLast? = some j

/-- A leaf is a node that nothing is below. -/
theorem Node.isLeaf_iff {nodes : Arena} {j : Nat} {n : Node} (h : nodes[j]? = some n) :
    n.isLeaf = true ↔ Arena.children nodes j = [] := by
  rw [Arena.children_of_getElem? h, Node.isLeaf, List.isEmpty_iff]

/-- A tree whose arena is one tree is well formed, if its paths are those of the arena. -/
theorem Arena.IsTree.wellFormed {t : Tree} (h : Arena.IsTree t.nodes) (hroot : t.root = 0)
    (hpaths : t.paths = Arena.paths t.nodes 0) : t.WellFormed where
  root := hroot
  ascends i c hc := ⟨h.ascends i c hc, h.lt_size hc⟩
  once c := by
    rw [h.nodup_allChildren.count]
    exact if_congr h.mem_allChildren_iff rfl rfl
  reached j hj := by
    rw [hroot]
    exact h.existsUnique_route hj
  leaves := by
    rw [Tree.leafCount, hpaths]
    exact h.length_paths
  distinct := by
    rw [hpaths]
    exact h.nodup_paths
  paths path hpath := by
    rw [hpaths] at hpath
    obtain ⟨j, hroute, hend⟩ := h.mem_paths.mp hpath
    have hj : j < t.nodes.size := h.last_lt_size hroute
    have hn : t.nodes[j]? = some t.nodes[j] := Array.getElem?_eq_getElem hj
    exact ⟨j, t.nodes[j], hroot ▸ hroute, hn, (Node.isLeaf_iff hn).mpr hend⟩
  ends j n hn hleaf := by
    rw [hpaths]
    exact h.existsUnique_path (Array.getElem?_eq_some_iff.mp hn).1 ((Node.isLeaf_iff hn).mp hleaf)

/-! ### A run -/

namespace Store.Sample

open Assembly

/-- Links are followed down to one level. -/
def options : Options := { fetchChildTraces := true, maxLinkDepth := 1, allowOpenLeaves := true }

def segmentA : Segment := segment "1-a" "a" none "1-b"

def segmentB : Segment := segment "1-a" "b" (some "a") "1-x"

def segmentC : Segment := segment "1-b" "c" none "1-y"

/-- The layout of the first trace. -/
def layoutA : Layout := ⟨segmentA, [("a", segmentB)]⟩

/-- The layout of the second trace. -/
def layoutC : Layout := ⟨segmentC, []⟩

/-- The tree of the first trace. -/
def tree : Tree where
  nodes := #[⟨segmentA, [1, 2]⟩, ⟨segmentB, []⟩, ⟨segmentC, []⟩]
  root := 0
  paths := [[0, 1], [0, 2]]
  sourceTrace := caller
  childTraces := [(⟨"1-b"⟩, callee)]
  linkLimitExceeded := true
  unresolved := [⟨"c", ⟨"1-y"⟩, .depthLimit⟩, ⟨"b", ⟨"1-x"⟩, .notFound⟩]

/-- The store after calls. -/
def after (requests : List (List TraceId)) : Store := { store with requests := requests }

/-- Looking a trace up in the small store answers from what it holds, and is logged. -/
theorem trace_after (requests : List (List TraceId)) (id : TraceId) :
    Lookup.trace ⟨backend, 10⟩ id (after requests)
      = (store.answerTo id, after (requests ++ [[id]])) :=
  trace_frozen (Serves.frozen ⟨requests, rfl⟩ frozen_store) 9 id

theorem placed_layoutA (s : Store) :
    (start s).placed ⟨"1-a"⟩ layoutA
      = ⟨s, #[⟨segmentA, [1]⟩, ⟨segmentB, []⟩], [], [⟨"1-a"⟩], false, []⟩ := by
  have hnodes : layoutA.nodes 0 = [⟨segmentA, [1]⟩, ⟨segmentB, []⟩] := by cbv
  rw [placed, show (start s).nodes.size = 0 from rfl, hnodes]
  rfl

theorem placed_layoutC (s : Store) :
    placed ⟨s, #[⟨segmentA, [1]⟩, ⟨segmentB, []⟩], tree.childTraces, [⟨"1-a"⟩], false, []⟩
        ⟨"1-b"⟩ layoutC
      = ⟨s, #[⟨segmentA, [1]⟩, ⟨segmentB, []⟩, ⟨segmentC, []⟩], tree.childTraces,
          [⟨"1-a"⟩, ⟨"1-b"⟩], false, []⟩ := by
  have hnodes : layoutC.nodes 2 = [⟨segmentC, []⟩] := by cbv
  unfold placed
  rw [show Array.size #[(⟨segmentA, [1]⟩ : Node), ⟨segmentB, []⟩] = 2 from rfl, hnodes]
  rfl

/-- The second trace is entered on the last level, so that its link is cut. -/
theorem enter_callee (s : Store) :
    splice ⟨backend, 10⟩ options 0 callee none
      ⟨s, #[⟨segmentA, [1]⟩, ⟨segmentB, []⟩], tree.childTraces, [⟨"1-a"⟩], false, []⟩
      = (.ok 2, ⟨s, #[⟨segmentA, [1]⟩, ⟨segmentB, []⟩, ⟨segmentC, []⟩], tree.childTraces, [⟨"1-a"⟩],
          true, [⟨"c", ⟨"1-y"⟩, .depthLimit⟩]⟩) := by
  have hl : Layout.ofTrace callee none options.orphans = .ok layoutC := by cbv
  have hlinks : linksOn options 2 layoutC = [(2, segmentC, ⟨"1-y"⟩)] := by cbv
  have hall : followAll ⟨backend, 10⟩ (deeper ⟨backend, 10⟩ options 0) (linksOn options 2 layoutC)
      (placed ⟨s, #[⟨segmentA, [1]⟩, ⟨segmentB, []⟩], tree.childTraces, [⟨"1-a"⟩], false, []⟩
        ⟨"1-b"⟩ layoutC)
      = (.ok (), ⟨s, #[⟨segmentA, [1]⟩, ⟨segmentB, []⟩, ⟨segmentC, []⟩], tree.childTraces,
          [⟨"1-a"⟩, ⟨"1-b"⟩], true, [⟨"c", ⟨"1-y"⟩, .depthLimit⟩]⟩) := by
    rw [hlinks, placed_layoutC]
    exact FollowStep.followAll_ok (.tooDeep (by simp) rfl) []
  rw [splice_eq, enter_of_links hl hall]
  rfl

/-- The first trace is entered, and the second through its first link; the other link leads to a
missing trace. -/
theorem splice_caller :
    splice ⟨backend, 10⟩ options 1 caller none (.start (after [[⟨"1-a"⟩]]))
      = (.ok 0, ⟨after [[⟨"1-a"⟩], [⟨"1-b"⟩], [⟨"1-x"⟩]], tree.nodes, tree.childTraces, [], true,
          tree.unresolved⟩) := by
  have hl : Layout.ofTrace caller none options.orphans = .ok layoutA := by cbv
  have hlinks : linksOn options 0 layoutA = [(0, segmentA, ⟨"1-b"⟩), (1, segmentB, ⟨"1-x"⟩)] := by
    cbv
  have htarget := trace_after [[⟨"1-a"⟩]] ⟨"1-b"⟩
  rw [answerTo_callee] at htarget
  have hmissing := trace_after [[⟨"1-a"⟩], [⟨"1-b"⟩]] ⟨"1-x"⟩
  rw [answerTo_missing] at hmissing
  have hall : followAll ⟨backend, 10⟩ (deeper ⟨backend, 10⟩ options 1) (linksOn options 0 layoutA)
      ((start (after [[⟨"1-a"⟩]])).placed ⟨"1-a"⟩ layoutA)
      = (.ok (), ⟨after [[⟨"1-a"⟩], [⟨"1-b"⟩], [⟨"1-x"⟩]], tree.nodes, tree.childTraces, [⟨"1-a"⟩],
          true, tree.unresolved⟩) := by
    rw [hlinks, placed_layoutA]
    refine (FollowStep.followAll_ok (.entered _ callee _ 2 _ (by simp) rfl
      (.found callee _ rfl htarget) (enter_callee _)) _).trans ?_
    exact FollowStep.followAll_ok (.missing _ _ _ (by simp) rfl rfl hmissing) []
  rw [splice_eq, enter_of_links hl hall]
  rfl

/-- The tree of the first trace is built by three calls. -/
theorem build_store : Tree.build ⟨backend, 10⟩ (Header.ofRoot ⟨"1-a"⟩) options store
    = (.ok tree, after [[⟨"1-a"⟩], [⟨"1-b"⟩], [⟨"1-x"⟩]]) := by
  have hsource := trace_after [] ⟨"1-a"⟩
  rw [answerTo_caller] at hsource
  refine build_eq_ok.mpr
    ⟨assemble_eq_ok.mpr ⟨caller, _, 0, _, hsource, splice_caller, ?_, rfl⟩, .inl rfl⟩
  have hpaths : Arena.paths tree.nodes 0 = [[0, 1], [0, 2]] := by decide
  unfold Assembly.tree
  rw [hpaths]
  rfl

/-- A run that does not find its source trace. -/
theorem build_missing : Tree.build ⟨backend, 10⟩ (Header.ofRoot ⟨"1-x"⟩) options store
    = (.error (.traceNotFound ⟨"1-x"⟩), after [[⟨"1-x"⟩]]) := by
  have hsource := trace_after [] ⟨"1-x"⟩
  rw [answerTo_missing] at hsource
  exact build_of_trace_error hsource

end Store.Sample

/-! ### Trees that are built -/

/-- Every tree that is built is well formed. -/
theorem Tree.wellFormed_of_build {σ : Type} {l : Lookup σ} {header : Header} {options : Options}
    {s s' : σ} {t : Tree} (h : Tree.build l header options s = (.ok t, s')) : t.WellFormed := by
  obtain ⟨hassemble, -⟩ := Assembly.build_eq_ok.mp h
  obtain ⟨spots, ledger, hj⟩ := Assembly.assemble_journal (Assembly.finds_keyed l)
    (fun _ _ hf => hf.1) (fun _ _ _ _ _ _ => trivial) trivial hassemble
  exact hj.isTree.wellFormed hj.root hj.paths

/-- The tree of the first trace is well formed. -/
theorem Tree.wellFormed_sample :
    Tree.build ⟨Store.backend, 10⟩ (Header.ofRoot ⟨"1-a"⟩) Store.Sample.options Store.Sample.store
        = (.ok Store.Sample.tree, Store.Sample.after [[⟨"1-a"⟩], [⟨"1-b"⟩], [⟨"1-x"⟩]]) ∧
      Store.Sample.tree.WellFormed :=
  ⟨Store.Sample.build_store, Tree.wellFormed_of_build Store.Sample.build_store⟩

end CausalTrace
