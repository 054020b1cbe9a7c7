import CausalTrace.Proofs.Assembly.Reference
import CausalTrace.Proofs.Assembly.Routes

/-!
# Unfolding an arena

An arena that is one tree unfolds to a forest, and the paths of the arena are the paths of the
forest.

## Main statements

* `Grows.unique` — at most one forest grows from items
* `Grows.simulate` — what grows from items grows from items that show the same
* `Arena.IsTree.exists_unfolding` — one grows from the root of an arena

## Design notes

Forests grow from lists of items, so every induction here has one case for a list with a first item,
and two hypotheses in it: for what is below that item, and for the other items.
-/

namespace CausalTrace

/-! ### Growth -/

section

variable {α β : Type} {shows : α → Segment → List α → Prop} {shows' : β → Segment → List β → Prop}

/-- At most one forest grows from items, if each item shows one thing. -/
theorem Grows.unique
    (hshows : ∀ x s s' below below', shows x s below → shows x s' below' → s = s' ∧ below = below')
    {xs : List α} {f : Forest} (hf : Grows shows xs f) :
    ∀ {g : Forest}, Grows shows xs g → f = g := by
  induction hf with
  | nil =>
      intro g hg
      cases hg
      rfl
  | cons hx _ _ ihbelow ihrest =>
      intro g hg
      cases hg with
      | cons hx' hbelow' hrest' =>
          obtain ⟨rfl, rfl⟩ := hshows _ _ _ _ _ hx hx'
          rw [ihbelow hbelow', ihrest hrest']

/-- A forest that grows from items grows from others that show the same, item by item. -/
theorem Grows.simulate {R : α → β → Prop}
    (hR : ∀ x y s below, R x y → shows x s below →
      ∃ below', shows' y s below' ∧ List.Forall₂ R below below')
    {xs : List α} {f : Forest} (hf : Grows shows xs f) :
    ∀ {ys : List β}, List.Forall₂ R xs ys → Grows shows' ys f := by
  induction hf with
  | nil =>
      intro ys h
      cases h
      exact .nil
  | cons hx _ _ ihbelow ihrest =>
      intro ys h
      cases h with
      | cons hxy hrest =>
          obtain ⟨below', hy, hbelow⟩ := hR _ _ _ _ hxy hx
          exact .cons hy (ihbelow hbelow) (ihrest hrest)

/-- If a forest grows from several items, one grows from each of them. -/
theorem Grows.of_mem {xs : List α} {f : Forest} (hf : Grows shows xs f) {x : α} (h : x ∈ xs) :
    ∃ g, Grows shows [x] g := by
  induction hf with
  | nil => cases h
  | cons hx hbelow _ _ ihrest =>
      rcases List.mem_cons.mp h with rfl | h
      · exact ⟨_, .cons hx hbelow .nil⟩
      · exact ihrest h

end

/-! ### Paths of a forest -/

theorem Forest.paths_cons_nil (s : Segment) (rest : Forest) :
    (Forest.cons s .nil rest).paths = [s] :: rest.paths := rfl

/-- The paths of a tree begin with its root, and go on below it. -/
theorem Forest.paths_cons (s : Segment) {below : Forest} (h : below ≠ .nil) (rest : Forest) :
    (Forest.cons s below rest).paths = below.paths.map (s :: ·) ++ rest.paths := by
  cases below with
  | nil => exact absurd rfl h
  | cons t inner others => rfl

/-- The paths of a forest are those of its first tree, and those of the others. -/
theorem Forest.paths_append (s : Segment) (below rest : Forest) :
    (Forest.cons s below rest).paths = (Forest.cons s below .nil).paths ++ rest.paths := by
  rw [Forest.paths.eq_def, Forest.paths.eq_def (.cons s below .nil)]
  simp only [Forest.paths, List.append_nil]

/-- A forest that grows from items is not empty. -/
theorem Grows.ne_nil {α : Type} {shows : α → Segment → List α → Prop} {xs : List α} {f : Forest}
    (h : Grows shows xs f) (hxs : xs ≠ []) : f ≠ .nil := by
  cases h with
  | nil => exact absurd rfl hxs
  | cons _ _ _ => exact Forest.noConfusion

/-- A forest grows from items if one grows from each of them; its paths are those of all of them. -/
theorem exists_grows_of_each {α : Type} {shows : α → Segment → List α → Prop}
    {ways : α → List (List Segment)} {xs : List α}
    (h : ∀ x ∈ xs, ∃ f, Grows shows [x] f ∧ f.paths = ways x) :
    ∃ f, Grows shows xs f ∧ f.paths = xs.flatMap ways := by
  induction xs with
  | nil => exact ⟨.nil, .nil, rfl⟩
  | cons x rest ih =>
      obtain ⟨g, hg, hpaths⟩ := ih fun y hy => h y (List.mem_cons_of_mem _ hy)
      obtain ⟨f, hf, hways⟩ := h x List.mem_cons_self
      cases hf with
      | cons hx hbelow hnil =>
          cases hnil
          refine ⟨_, .cons hx hbelow hg, ?_⟩
          rw [Forest.paths_append, hways, hpaths, List.flatMap_cons]

/-! ### Arenas -/

namespace Arena

variable {nodes : Arena}

/-- A node shows one segment, and one list of children. -/
theorem shows_unique (nodes : Arena) (i : Nat) (s s' : Segment) (below below' : List Nat)
    (h : nodes.Shows i s below) (h' : nodes.Shows i s' below') : s = s' ∧ below = below' := by
  have heq : (⟨s, below⟩ : Node) = ⟨s', below'⟩ := Option.some.inj (h.symm.trans h')
  exact ⟨congrArg Node.segment heq, congrArg Node.children heq⟩

/-- A node shows its segment and its children. -/
theorem exists_shows {i : Nat} (hi : i < nodes.size) :
    ∃ s, nodes.Shows i s (children nodes i) ∧ segment? nodes i = some s := by
  have hn : nodes[i]? = some nodes[i] := Array.getElem?_eq_getElem hi
  refine ⟨nodes[i].segment, ?_, ?_⟩
  · rw [Shows, hn, children_of_getElem? hn]
  · rw [segment?, hn, Option.map_some]

namespace IsTree

/-- From a node of a tree a forest grows, and its paths are the ways down from the node. -/
theorem grows_ways (h : IsTree nodes) :
    ∀ {depth i : Nat}, Within nodes depth i → i < nodes.size →
      ∃ f, Grows nodes.Shows [i] f ∧
        f.paths = (ways nodes depth i).map (List.filterMap (segment? nodes)) := by
  have hleaf : ∀ {depth i : Nat}, children nodes i = [] → i < nodes.size →
      ∃ f, Grows nodes.Shows [i] f ∧
        f.paths = (ways nodes depth i).map (List.filterMap (segment? nodes)) := by
    intro depth i hend hi
    obtain ⟨s, hshows, hsegment⟩ := exists_shows hi
    refine ⟨_, .cons (hend ▸ hshows) .nil .nil, ?_⟩
    rw [ways_of_leaf hend, Forest.paths_cons_nil, List.map_singleton,
      List.filterMap_cons_some hsegment]
    rfl
  intro depth
  induction depth with
  | zero => exact hleaf
  | succ depth ih =>
      intro i hw hi
      by_cases hend : children nodes i = []
      · exact hleaf hend hi
      · obtain ⟨s, hshows, hsegment⟩ := exists_shows hi
        obtain ⟨f, hf, hpaths⟩ := exists_grows_of_each fun c hc => ih (hw c hc) (h.lt_size hc)
        refine ⟨_, .cons hshows hf .nil, ?_⟩
        rw [Forest.paths_cons _ (hf.ne_nil hend), ways_succ hend, hpaths, Forest.paths,
          List.append_nil, List.map_flatMap, List.map_flatMap]
        -- the segment of the node comes first on all ways through each of its children
        refine List.flatMap_congr fun c _ => ?_
        rw [List.map_map, List.map_map]
        refine List.map_congr_left fun way _ => ?_
        exact (List.filterMap_cons_some hsegment).symm

/-- The forest that an arena unfolds to has the paths of the arena. -/
theorem exists_unfolding (h : IsTree nodes) :
    ∃ f, Grows nodes.Shows [0] f ∧
      f.paths = (paths nodes 0).map (List.filterMap (segment? nodes)) := by
  have hw : Within nodes nodes.size 0 := h.within (by omega)
  rw [paths_eq_ways hw]
  exact h.grows_ways hw h.pos

/-- The last segment on a path is the one at its last node. -/
theorem getLast?_segments (h : IsTree nodes) {path : List Nat} (hpath : path ∈ paths nodes 0) :
    (path.filterMap (segment? nodes)).getLast? = path.getLast?.bind (segment? nodes) := by
  obtain ⟨j, hroute, -⟩ := h.mem_paths.mp hpath
  obtain ⟨s, -, hsegment⟩ := exists_shows (h.last_lt_size hroute)
  obtain ⟨front, k, rfl⟩ := (List.eq_nil_or_concat' path).resolve_left hroute.ne_nil
  obtain ⟨rfl, -⟩ := isRoute_concat.mp hroute
  rw [List.filterMap_append, List.filterMap_cons_some hsegment, List.filterMap_nil,
    List.getLast?_concat, List.getLast?_concat]
  exact hsegment.symm

end IsTree

end Arena

end CausalTrace
