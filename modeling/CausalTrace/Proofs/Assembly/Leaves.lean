import CausalTrace.Proofs.Assembly.Coupling
import CausalTrace.Proofs.Assembly.Links

/-!
# Whether a path may end in an open segment

Whether open leaves are allowed is asked once, when the tree is complete.  So it has no influence on
the calls that are made, on the tree, or on any other failure: where open leaves are not allowed, a
tree is refused if one of its leaves is open, and the failure names the first of these.

## Main definitions

* `Options.allowing` — the same options, with open leaves allowed or not
* `Tree.EndsIn`, `Tree.LeavesComplete`, `Tree.FirstOpen` — the leaves of a tree

## Main statements

* `Tree.assemble_allowing` — trees are put together alike
* `Tree.openLeaf?_eq_none_iff`, `Tree.firstOpen_of_openLeaf?` — the leaf that is looked for
* `Tree.build_allowing`

## Design notes

The leaves of a tree are said twice: as nodes that nothing is below, and as what paths end in.  In a
tree that is built these are the same, since every leaf ends a path.  Only the segment of the leaf
itself is looked at, not those nested in it and not those on the way.
-/

namespace CausalTrace

/-- A segment has an end time, and does not say of itself that it is in progress. -/
def Segment.IsComplete (s : Segment) : Prop :=
  s.inProgress = false ∧ ∃ finish, s.finish = some finish

/-- A segment that is not open is complete. -/
theorem Segment.isOpen_eq_false {s : Segment} : s.isOpen = false ↔ s.IsComplete := by
  unfold isOpen IsComplete
  rw [Bool.or_eq_false_iff]
  exact and_congr_right fun _ => Option.isNone_eq_false_iff.trans Option.isSome_iff_exists

theorem Segment.isOpen_eq_true {s : Segment} : s.isOpen = true ↔ ¬ s.IsComplete := by
  rw [← isOpen_eq_false, Bool.not_eq_false]

/-- The same options, with open leaves allowed or not. -/
def Options.allowing (options : Options) (allow : Bool) : Options :=
  { options with allowOpenLeaves := allow }

variable {σ : Type}

/-! ### Putting trees together -/

namespace Tree

/-- Whether open leaves are allowed is not looked at when a tree is put together. -/
theorem assemble_allowing (l : Lookup σ) (header : Header) (options : Options) (allow : Bool) :
    assemble l header (options.allowing allow) = assemble l header options := by
  funext s
  have hsame : ∀ levels, Assembly.splice l (options.allowing allow) levels
      = Assembly.splice l options levels := Assembly.splice_congr (by rfl) (by rfl)
  unfold assemble
  rw [hsame]
  rfl

/-- A tree is put together, and then it is checked. -/
theorem build_allowing_eq (l : Lookup σ) (header : Header) (options : Options) (allow : Bool)
    (s : σ) : build l header (options.allowing allow) s =
      ((assemble l header options s).1 >>= fun t => t.checked (options.allowing allow),
        (assemble l header options s).2) := by
  unfold build
  rw [assemble_allowing, Action.bind_apply]
  generalize assemble l header options s = p
  obtain ⟨r, s'⟩ := p
  cases r <;> rfl

/-- Where open leaves are allowed, the tree is what is put together. -/
theorem build_allowing_true (l : Lookup σ) (header : Header) (options : Options) (s : σ) :
    build l header (options.allowing true) s = assemble l header options s := by
  rw [build_allowing_eq]
  generalize assemble l header options s = p
  obtain ⟨r, s'⟩ := p
  cases r <;> rfl

/-- The calls made are those made when the tree is put together, whether open leaves are allowed or
not. -/
theorem requests_allowing (l : Lookup σ) (header : Header) (options : Options) (allow : Bool)
    (s : σ) : requests l header (options.allowing allow) s
      = (assemble l.recorded header options (s, [])).2.2 := by
  unfold requests
  rw [build_allowing_eq]

/-- No tree fails to be put together because of an open leaf. -/
theorem assemble_ne_leafOpen {l : Lookup σ} {header : Header} {options : Options} {s s' : σ}
    {e : Failure} (h : assemble l header options s = (.error e, s')) (trace : TraceId)
    (id : String) : e ≠ .leafOpen trace id := by
  have hlookup : ∀ target s e s', l.trace target s = (.error e, s') → e ≠ .leafOpen trace id := by
    intro target s e s' he
    rcases Lookup.trace_error he with rfl | ⟨cause, rfl⟩ | ⟨i, cause, rfl⟩ <;> simp
  rcases Assembly.assemble_eq_error.mp h with hsource | ⟨source, s₁, a, -, hsplice, -⟩
  · exact hlookup _ _ _ _ hsource
  · refine Assembly.splice_failure (P := fun e => e ≠ .leafOpen trace id) ?_ (by simp)
      (fun target s e s' he _ => hlookup target s e s' he) options.maxLinkDepth hsplice
    intro t designated e he
    rcases Layout.ofTrace_error he with rfl | ⟨s, p, rfl⟩ | ⟨s, p, rfl⟩ <;> simp

/-! ### Leaves -/

/-- A path ends in a node that nothing is below, and the segment of that node. -/
def EndsIn (t : Tree) (path : List Nat) (s : Segment) : Prop :=
  ∃ i, path.getLast? = some i ∧ t.nodes[i]? = some ⟨s, []⟩

/-- The segments of all nodes that nothing is below are complete. -/
def LeavesComplete (t : Tree) : Prop :=
  ∀ (i : Nat) (s : Segment), t.nodes[i]? = some ⟨s, []⟩ → s.IsComplete

/-- The leaf of the first path that ends in one that is not complete. -/
def FirstOpen (t : Tree) (leaf : Segment) : Prop :=
  ∃ front path back, t.paths = front ++ path :: back ∧ t.EndsIn path leaf ∧ ¬ leaf.IsComplete ∧
    ∀ p ∈ front, ∃ s, t.EndsIn p s ∧ s.IsComplete

variable {t : Tree} {path : List Nat} {leaf : Segment}

theorem EndsIn.leaf?_eq (h : t.EndsIn path leaf) : t.leaf? path = some leaf := by
  obtain ⟨i, hlast, hnode⟩ := h
  rw [leaf?, hlast, Option.bind_some, Arena.segment?, hnode]
  rfl

/-- Every path of a well formed tree ends in a leaf. -/
theorem WellFormed.exists_endsIn (h : t.WellFormed) (hpath : path ∈ t.paths) :
    ∃ s, t.EndsIn path s := by
  obtain ⟨i, ⟨s, children⟩, hroute, hnode, hleaf⟩ := h.paths path hpath
  obtain rfl : children = [] := List.isEmpty_iff.mp hleaf
  exact ⟨s, i, hroute.2.1, hnode⟩

/-- Every leaf of a well formed tree ends a path. -/
theorem WellFormed.exists_path (h : t.WellFormed) {i : Nat}
    (hnode : t.nodes[i]? = some ⟨leaf, []⟩) : ∃ path ∈ t.paths, t.EndsIn path leaf := by
  obtain ⟨path, ⟨hpath, hlast⟩, -⟩ := h.ends i _ hnode rfl
  exact ⟨path, hpath, i, hlast, hnode⟩

/-- No open leaf is found if and only if all leaves are complete. -/
theorem openLeaf?_eq_none_iff (h : t.WellFormed) : t.openLeaf? = none ↔ t.LeavesComplete := by
  unfold openLeaf?
  rw [List.find?_eq_none]
  constructor
  · intro hnone i s hnode
    obtain ⟨path, hpath, hends⟩ := h.exists_path hnode
    have hopen := hnone s (List.mem_filterMap.mpr ⟨path, hpath, hends.leaf?_eq⟩)
    exact Segment.isOpen_eq_false.mp (Bool.not_eq_true _ ▸ hopen)
  · intro hcomplete s hs
    obtain ⟨path, hpath, hleaf⟩ := List.mem_filterMap.mp hs
    obtain ⟨u, i, hlast, hnode⟩ := h.exists_endsIn hpath
    have hends : t.EndsIn path u := ⟨i, hlast, hnode⟩
    obtain rfl := Option.some.inj (hends.leaf?_eq.symm.trans hleaf)
    rw [Segment.isOpen_eq_false.mpr (hcomplete i u hnode)]
    exact Bool.false_ne_true

/-- An open leaf that is found is the first one. -/
theorem firstOpen_of_openLeaf? (h : t.WellFormed) (hopen : t.openLeaf? = some leaf) :
    t.FirstOpen leaf := by
  unfold openLeaf? at hopen
  rw [List.find?_filterMap, Option.bind_eq_some_iff] at hopen
  obtain ⟨path, hfind, hleaf⟩ := hopen
  obtain ⟨hany, front, back, hpaths, hfront⟩ := List.find?_eq_some_iff_append.mp hfind
  have hends : ∀ p ∈ t.paths, ∃ s, t.EndsIn p s := fun _ hp => h.exists_endsIn hp
  rw [hpaths] at hends
  refine ⟨front, path, back, hpaths, ?_, ?_, fun p hp => ?_⟩
  · obtain ⟨s, hs⟩ := hends path (List.mem_append_right _ List.mem_cons_self)
    rwa [← Option.some.inj (hs.leaf?_eq.symm.trans hleaf)]
  · rw [hleaf, Option.any_some] at hany
    exact Segment.isOpen_eq_true.mp hany
  · obtain ⟨s, hs⟩ := hends p (List.mem_append_left _ hp)
    have hclosed := hfront p hp
    rw [hs.leaf?_eq, Option.any_some, Bool.not_eq_true'] at hclosed
    exact ⟨s, hs, Segment.isOpen_eq_false.mp hclosed⟩

/-- What becomes of a tree whose leaves may not be open. -/
theorem WellFormed.checked (h : t.WellFormed) (options : Options) :
    (t.LeavesComplete → t.checked (options.allowing false) = .ok t) ∧
      (¬ t.LeavesComplete → ∃ leaf, t.FirstOpen leaf ∧
        t.checked (options.allowing false) = .error (.leafOpen leaf.trace leaf.id)) := by
  refine ⟨fun hcomplete => ?_, fun hopen => ?_⟩
  · exact Assembly.checked_eq_ok.mpr ⟨rfl, .inr ((openLeaf?_eq_none_iff h).mpr hcomplete)⟩
  · obtain ⟨leaf, hleaf⟩ := Option.ne_none_iff_exists'.mp (mt (openLeaf?_eq_none_iff h).mp hopen)
    exact ⟨leaf, firstOpen_of_openLeaf? h hleaf,
      Assembly.checked_eq_error.mpr ⟨rfl, leaf, hleaf, rfl⟩⟩

/-- The paths of a tree are the ways from its root to the leaves, listed depth first. -/
theorem paths_eq_ways_of_build {l : Lookup σ} {header : Header} {options : Options} {s s' : σ}
    (h : build l header options s = (.ok t, s')) :
    t.paths = Arena.ways t.nodes t.nodes.size t.root := by
  obtain ⟨hassemble, -⟩ := Assembly.build_eq_ok.mp h
  obtain ⟨spots, ledger, hj⟩ := Assembly.assemble_journal (Assembly.finds_keyed l)
    (fun _ _ hf => hf.1) (fun _ _ _ _ _ _ => trivial) trivial hassemble
  rw [hj.paths, hj.root, Arena.paths_eq_ways (hj.isTree.within (by omega))]

/-! ### Two runs -/

/-- Where open leaves are not allowed, the same calls are made as where they are, what fails there
fails here in the same way, and of the trees that are built there those are refused that have a leaf
which is not complete; the failure names the first such leaf, and the trace that the leaf says it is
from. -/
theorem build_allowing (l : Lookup σ) (header : Header) (options : Options) (s : σ) :
    requests l header (options.allowing false) s = requests l header (options.allowing true) s ∧
    (build l header (options.allowing false) s).2 = (build l header (options.allowing true) s).2 ∧
    (∀ e, (build l header (options.allowing true) s).1 = .error e →
      (build l header (options.allowing false) s).1 = .error e ∧
        ∀ trace id, e ≠ .leafOpen trace id) ∧
    ∀ t, (build l header (options.allowing true) s).1 = .ok t →
      t.paths = Arena.ways t.nodes t.nodes.size t.root ∧
      (t.LeavesComplete → (build l header (options.allowing false) s).1 = .ok t) ∧
      (¬ t.LeavesComplete → ∃ leaf, t.FirstOpen leaf ∧
        (build l header (options.allowing false) s).1 = .error (.leafOpen leaf.trace leaf.id)) := by
  refine ⟨by rw [requests_allowing, requests_allowing],
    by rw [build_allowing_eq, build_allowing_true], fun e he => ?_, fun t ht => ?_⟩
  · rw [build_allowing_true] at he
    rw [build_allowing_eq, he]
    exact ⟨rfl, assemble_ne_leafOpen (Prod.ext he rfl)⟩
  · have hbuild : build l header (options.allowing true) s
        = (.ok t, (build l header (options.allowing true) s).2) := Prod.ext ht rfl
    have hchecked : (build l header (options.allowing false) s).1
        = t.checked (options.allowing false) := by
      rw [build_allowing_true] at ht
      rw [build_allowing_eq, ht]
      rfl
    rw [hchecked]
    exact ⟨paths_eq_ways_of_build hbuild, (wellFormed_of_build hbuild).checked options⟩

open Store.Sample in
/-- The segment at the root is open as well, but the path goes on. -/
theorem build_allowing_sample :
    (build ⟨Store.backend, 10⟩ (Header.ofRoot ⟨"1-a"⟩) (options.allowing true) store).1 = .ok tree ∧
      (build ⟨Store.backend, 10⟩ (Header.ofRoot ⟨"1-a"⟩) (options.allowing false) store).1
        = .error (.leafOpen ⟨"1-a"⟩ "b") ∧
      ∃ leaf, tree.FirstOpen leaf ∧
        (build ⟨Store.backend, 10⟩ (Header.ofRoot ⟨"1-a"⟩) (options.allowing false) store).1
          = .error (.leafOpen leaf.trace leaf.id) := by
  have hbuild : build ⟨Store.backend, 10⟩ (Header.ofRoot ⟨"1-a"⟩) (options.allowing true) store
      = (.ok tree, after [[⟨"1-a"⟩], [⟨"1-b"⟩], [⟨"1-x"⟩]]) := build_store
  have hopen : ¬ tree.LeavesComplete := by
    intro hcomplete
    obtain ⟨finish, hfinish⟩ := (hcomplete 1 segmentB rfl).2
    cases hfinish
  have hassemble := (Assembly.build_eq_ok.mp build_store).1
  refine ⟨by rw [hbuild], ?_, ((build_allowing _ _ _ _).2.2.2 tree (by rw [hbuild])).2.2 hopen⟩
  rw [build_allowing_eq, hassemble]
  cbv

end Tree

end CausalTrace
