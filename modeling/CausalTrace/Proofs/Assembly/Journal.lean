import CausalTrace.Proofs.Assembly.Ledger
import CausalTrace.Proofs.Assembly.Routes

/-!
# The journal of a tree

What the spots and the ledger of an assembly say about the tree it gives.  Each of the facts is
shown of following links first, by induction over `Travels`, and then put together for a whole
tree.

## Main definitions

* `linksAt` — the links that the segments at spots hold
* `Spot.Reached` — a spot, compared with the traces that were being entered before
* `Settled` — what an entry of the ledger says of the spots
* `Journal` — the spots and the ledger of a tree
* `Tree.Charted` — what they say about it

## Main statements

* `Assembly.assemble_journal` — every tree has a journal
* `Assembly.Journal.isTree` — the arena of a tree with a journal is one tree
* `Assembly.Journal.charted` — a tree is charted by its journal

## Design notes

Entries speak of nodes that were there before the links were followed: the nodes that hold the
links.  Where that matters the spots `before` are carried along, and the numbers of the new ones
start behind them.
-/

namespace CausalTrace.Assembly

variable {σ : Type} {l : Lookup σ} {options : Options}

/-! ### What stands below what -/

/-- Below the segments of one trace stands every segment of it but the root, once. -/
theorem perm_below_spotsOf (t : Trace) (layout : Layout) (base : Nat) (chain : List TraceId) :
    (base :: (spotsOf t layout base chain).flatMap Spot.below).Perm
      (List.range' base layout.placed.length) := by
  have hparts : (spotsOf t layout base chain).flatMap Spot.below
      = (layout.nodes base).flatMap Node.children := by
    rw [← map_node_spotsOf t layout base chain, List.flatMap_map]
    rfl
  have hlength : layout.placed.length = layout.placed.length - 1 + 1 := by
    rw [Layout.length_placed, Nat.add_sub_cancel]
  rw [hparts, hlength, List.range'_succ]
  exact (layout.perm_children_nodes base).cons base

private theorem perm_regroup (own inner rest innerRoots restRoots : List Nat) (root : Nat) :
    (own ++ inner ++ rest ++ (innerRoots ++ root :: restRoots)).Perm
      (root :: own ++ (inner ++ innerRoots) ++ (rest ++ restRoots)) :=
  List.perm_iff_count.mpr fun i => by
    simp only [List.count_append, List.count_cons]
    omega

/-! ### Links -/

/-- The links that the segments at spots hold, if links are followed. -/
def linksAt (options : Options) (spots : List Spot) : List (Nat × Segment × TraceId) :=
  if options.fetchChildTraces then
    spots.flatMap fun p => (targets p.segment).map fun target => (p.number, p.segment, target)
  else []

theorem linksAt_append (first second : List Spot) :
    linksAt options (first ++ second) = linksAt options first ++ linksAt options second := by
  unfold linksAt
  split
  · rw [List.flatMap_append]
  · rfl

/-- The links on a layout are those that its spots hold. -/
theorem linksOn_eq_linksAt (t : Trace) (layout : Layout) (base : Nat) (chain : List TraceId) :
    linksOn options base layout = linksAt options (spotsOf t layout base chain) := by
  unfold linksOn linksAt linksFrom spotsOf
  rw [List.zipIdx_eq_map_add, List.flatMap_map, List.flatMap_map]

/-- Every link is held by a spot. -/
theorem linksAt_number {spots : List Spot} {link : Nat × Segment × TraceId}
    (h : link ∈ linksAt options spots) : link.1 ∈ spots.map Spot.number := by
  unfold linksAt at h
  split at h
  · obtain ⟨p, hp, hlink⟩ := List.mem_flatMap.mp h
    obtain ⟨target, -, rfl⟩ := List.mem_map.mp hlink
    exact List.mem_map_of_mem hp
  · cases h

/-- What a node holds among links, in order. -/
def heldBy (links : List (Nat × Segment × TraceId)) (i : Nat) : List (Nat × Segment × TraceId) :=
  links.filter fun link => link.1 == i

theorem heldBy_append (first second : List (Nat × Segment × TraceId)) (i : Nat) :
    heldBy (first ++ second) i = heldBy first i ++ heldBy second i :=
  List.filter_append ..

theorem heldBy_eq_nil {links : List (Nat × Segment × TraceId)} {i : Nat}
    (h : ∀ link ∈ links, link.1 ≠ i) : heldBy links i = [] :=
  List.filter_eq_nil_iff.mpr fun link hl => by simpa using h link hl

theorem entriesAt_append (first second : List Followed) (i : Nat) :
    entriesAt (first ++ second) i = entriesAt first i ++ entriesAt second i :=
  List.filter_append ..

/-- The first entry comes before the others of its node. -/
theorem map_link_entriesAt_cons (f : Followed) (ledger : List Followed) (i : Nat) :
    (entriesAt (f :: ledger) i).map Followed.link
      = heldBy [f.link] i ++ (entriesAt ledger i).map Followed.link := by
  unfold entriesAt heldBy
  by_cases h : f.holder = i <;> simp [Followed.link, h]

/-! ### Chains and entries -/

/-- A spot is reached from a chain by a number of levels at most. -/
structure Spot.Reached (options : Options) (found : TraceId → Trace → Prop) (chain : List TraceId)
    (levels : Nat) (p : Spot) : Prop where
  goesOn : chain <+: p.chain
  longer : chain.length < p.chain.length
  short : p.chain.length ≤ chain.length + levels
  distinct : chain.Nodup → p.chain.Nodup
  last : p.chain.getLast? = some p.trace.id
  laid : Layout.ofTrace p.trace none options.orphans = .ok p.layout
  found : found p.trace.id p.trace

/-- What an entry of the ledger says of the spots, when chains may have a number of traces. -/
inductive Settled (found : TraceId → Trace → Prop) (missing : TraceId → Prop) (limit : Nat)
    (spots : List Spot) : Followed → Prop
  /-- A link that was not followed is one that may not be, or leads to what is not there. -/
  | left {holder : Nat} {s : Segment} {target : TraceId} {reason : UnresolvedReason} (p : Spot) :
      spots[holder]? = some p → p.segment = s → target ∉ p.chain →
      (reason = .depthLimit ↔ p.chain.length = limit) → (reason = .notFound → missing target) →
      Settled found missing limit spots ⟨holder, s, target, .left reason⟩
  /-- The trace that a link leads to was entered: its root has the number given, and its chain has
  one trace more. -/
  | entered {holder root : Nat} {s : Segment} {target : TraceId} (p q : Spot) :
      spots[holder]? = some p → p.segment = s → target ∉ p.chain → p.chain.length < limit →
      spots[root]? = some q → q.entry = root → q.chain = p.chain ++ [target] →
      found target q.trace → q.segment = q.layout.root →
      Settled found missing limit spots ⟨holder, s, target, .entered root⟩

/-- What is settled is a link on the segment of its spot, and leads to no trace being entered
there. -/
theorem Settled.holds {found : TraceId → Trace → Prop} {missing : TraceId → Prop} {limit : Nat}
    {spots : List Spot} {f : Followed} (h : Settled found missing limit spots f) :
    ∃ p, spots[f.holder]? = some p ∧ p.segment = f.segment ∧ f.target ∉ p.chain := by
  cases h with
  | left p hp hseg hc _ _ => exact ⟨p, hp, hseg, hc⟩
  | entered p _ hp hseg hc _ _ _ _ _ _ => exact ⟨p, hp, hseg, hc⟩

theorem getElem?_append_some {α : Type} {xs : List α} {i : Nat} {x : α} (h : xs[i]? = some x)
    (ys : List α) : (xs ++ ys)[i]? = some x := by
  rw [List.getElem?_append_left (List.getElem?_eq_some_iff.mp h).1, h]

theorem getElem?_append_at {α : Type} {xs ys : List α} {n k : Nat} {x : α} (hn : xs.length = n)
    (h : ys[k]? = some x) : (xs ++ ys)[n + k]? = some x := by
  rw [List.getElem?_append_right (by omega), hn, Nat.add_sub_cancel_left, h]

/-- What is settled stays so when more spots come. -/
theorem Settled.mono {found : TraceId → Trace → Prop} {missing : TraceId → Prop} {limit : Nat}
    {spots : List Spot} {f : Followed} (h : Settled found missing limit spots f)
    (more : List Spot) : Settled found missing limit (spots ++ more) f := by
  cases h with
  | left p hp hseg hc hreason hmissing =>
      exact .left p (getElem?_append_some hp _) hseg hc hreason hmissing
  | entered p q hp hseg hc hlevel hq hentry hchain hf hroot =>
      exact .entered p q (getElem?_append_some hp _) hseg hc hlevel (getElem?_append_some hq _)
        hentry hchain hf hroot

namespace Travels

variable {found : TraceId → Trace → Prop} {missing : TraceId → Prop} {levels next : Nat}
  {chain : List TraceId} {links : List (Nat × Segment × TraceId)} {spots : List Spot}
  {ledger : List Followed}

/-- The new spots have the numbers from the next one on. -/
theorem number_bounds (h : Travels options found missing levels chain next links spots ledger)
    {i : Nat} (hi : i ∈ spots.map Spot.number) : next ≤ i ∧ i < next + spots.length := by
  rwa [h.numbers, List.mem_range'_1] at hi

/-- Every link has its entry, and the entries for a node stand in the order of its links.  A node is
either an old one, which holds links to be followed, or one of the new ones. -/
theorem entries_links (h : Travels options found missing levels chain next links spots ledger) :
    (∀ link ∈ links, link.1 < next) →
    ∀ i, (entriesAt ledger i).map Followed.link = heldBy (links ++ linksAt options spots) i := by
  induction h with
  | done =>
      intro _ i
      simp [entriesAt, heldBy, linksAt]
  | left _ _ _ _ ih =>
      intro hlinks i
      rw [map_link_entriesAt_cons, ih (fun link hl => hlinks link (List.mem_cons_of_mem _ hl)),
        ← heldBy_append]
      rfl
  | @entered levels chain next holder s target t layout links inner spots innerLedger ledger
      _ _ _ hinner hrest ihinner ih =>
      intro hlinks i
      have hrestLinks : ∀ link ∈ links, link.1 < next + layout.placed.length + inner.length :=
        fun link hl => by
          have := hlinks link (List.mem_cons_of_mem _ hl)
          omega
      rw [entriesAt_append, List.map_append, map_link_entriesAt_cons, ih hrestLinks,
        ihinner (fun link hl => (holder_lt_of_mem_linksOn hl).2),
        linksOn_eq_linksAt t layout next (chain ++ [target]), linksAt_append, linksAt_append]
      simp only [← List.singleton_append (l := links), heldBy_append]
      -- an old node holds no links of the new trace, and a new node none of the old links
      rcases Nat.lt_or_ge i next with hi | hi
      · have hown : heldBy (linksAt options (spotsOf t layout next (chain ++ [target]))) i = [] :=
          heldBy_eq_nil fun link hl => by
            rw [← linksOn_eq_linksAt] at hl
            have := (holder_lt_of_mem_linksOn hl).1
            omega
        have hin : heldBy (linksAt options inner) i = [] := heldBy_eq_nil fun link hl => by
          have := (hinner.number_bounds (linksAt_number hl)).1
          omega
        rw [hown, hin]
        simp only [Followed.link, List.nil_append, List.append_assoc]
      · have hold : ∀ link ∈ (holder, s, target) :: links, link.1 ≠ i := fun link hl => by
          have := hlinks link hl
          omega
        have hfirst : heldBy [(holder, s, target)] i = [] := heldBy_eq_nil fun link hl =>
          hold link (List.mem_cons.mpr (.inl (List.mem_singleton.mp hl)))
        have hothers : heldBy links i = [] :=
          heldBy_eq_nil fun link hl => hold link (List.mem_cons_of_mem _ hl)
        have hlink : heldBy [Followed.link ⟨holder, s, target, .entered next⟩] i = [] := hfirst
        rw [hlink, hfirst, hothers]
        simp only [List.nil_append, List.append_assoc]

/-- Every number among the new ones stands below exactly one node, once: below a node of its own
trace, or as the root of a trace below the node that holds the link. -/
theorem below_perm (h : Travels options found missing levels chain next links spots ledger) :
    (spots.flatMap Spot.below ++ ledger.filterMap Followed.root?).Perm
      (List.range' next spots.length) := by
  induction h with
  | done => simp
  | left _ _ _ _ ih =>
      rw [List.filterMap_cons_none rfl]
      exact ih
  | @entered levels chain next holder s target t layout links inner spots innerLedger ledger
      _ _ _ _ _ ihinner ih =>
      have hown := perm_below_spotsOf t layout next (chain ++ [target])
      rw [List.flatMap_append, List.flatMap_append, List.filterMap_append,
        List.filterMap_cons_some (Followed.root?_eq_some.mpr rfl)]
      rw [List.length_append, List.length_append, length_spotsOf, ← List.range'_append_1,
        ← List.range'_append_1, ← Nat.add_assoc]
      exact (perm_regroup _ _ _ _ _ next).trans ((hown.append ihinner).append ih)

/-- The spots of a trace stand together, in the order in which its segments were placed. -/
theorem blocks (h : Travels options found missing levels chain next links spots ledger) :
    ∀ p ∈ spots, p ∈ spotsOf p.trace p.layout p.entry p.chain ∧ ∃ front back,
      spots = front ++ spotsOf p.trace p.layout p.entry p.chain ++ back ∧
        p.entry = next + front.length := by
  induction h with
  | done => simp
  | left _ _ _ _ ih => exact ih
  | @entered levels chain next holder s target t layout links inner spots innerLedger ledger
      _ _ _ _ _ ihinner ih =>
      intro p hp
      simp only [List.mem_append, or_assoc] at hp
      rcases hp with hp | hp | hp
      · have hown := hp
        obtain ⟨k, s, -, rfl⟩ := mem_spotsOf.mp hp
        exact ⟨hown, [], inner ++ spots, by simp, rfl⟩
      · obtain ⟨hown, front, back, hspots, hentry⟩ := ihinner p hp
        refine ⟨hown, spotsOf t layout next (chain ++ [target]) ++ front, back ++ spots, ?_, ?_⟩
        · rw [hspots]
          simp only [List.append_assoc]
        · rw [hentry, List.length_append, length_spotsOf]
          omega
      · obtain ⟨hown, front, back, hspots, hentry⟩ := ih p hp
        refine ⟨hown, spotsOf t layout next (chain ++ [target]) ++ inner ++ front, back, ?_, ?_⟩
        · rw [hspots]
          simp only [List.append_assoc]
        · rw [hentry, List.length_append, List.length_append, length_spotsOf]
          omega

/-- The chains of the new spots go on from the one that links were followed on, by at most as many
traces as there are levels. -/
theorem reached (hid : ∀ id t, found id t → t.id = id)
    (h : Travels options found missing levels chain next links spots ledger) :
    ∀ p ∈ spots, p.Reached options found chain levels := by
  induction h with
  | done => simp
  | left _ _ _ _ ih => exact ih
  | @entered levels chain next holder s target t layout links inner spots innerLedger ledger
      hc hf hl _ _ ihinner ih =>
      intro p hp
      have hdistinct : chain.Nodup → (chain ++ [target]).Nodup := by
        intro hnd
        rw [← List.concat_eq_append, List.nodup_concat]
        exact ⟨hc, hnd⟩
      simp only [List.mem_append, or_assoc] at hp
      rcases hp with hp | hp | hp
      · obtain ⟨k, s, -, rfl⟩ := mem_spotsOf.mp hp
        obtain rfl := hid _ _ hf
        exact ⟨List.prefix_append _ _, by simp, by simp, hdistinct, by simp, hl, hf⟩
      -- the traces below were entered on a chain with one trace more, and with one level less
      · have hr := ihinner p hp
        have hlonger := hr.longer
        have hshort := hr.short
        rw [List.length_append, List.length_singleton] at hlonger hshort
        exact ⟨(List.prefix_append _ _).trans hr.goesOn, by omega, by omega,
          fun hnd => hr.distinct (hdistinct hnd), hr.last, hr.laid, hr.found⟩
      · exact ih p hp

/-- Every entry is settled among the old spots and the new ones, if the links are held by old spots
at the end of the chain that they are followed on. -/
theorem settled (h : Travels options found missing levels chain next links spots ledger) :
    ∀ before : List Spot, before.length = next →
      (∀ link ∈ links, ∃ p, before[link.1]? = some p ∧ p.segment = link.2.1 ∧ p.chain = chain) →
      ∀ f ∈ ledger, Settled found missing (chain.length + levels) (before ++ spots) f := by
  induction h with
  | done => simp
  | @left levels chain next holder s target reason links spots ledger hc hreason hmissing _ ih =>
      intro before hbefore hlinks f hf
      rcases List.mem_cons.mp hf with rfl | hf
      · obtain ⟨p, hp, hseg, hchain⟩ := hlinks _ List.mem_cons_self
        refine .left p (getElem?_append_some hp _) hseg (hchain ▸ hc) ?_ hmissing
        rw [hreason, hchain]
        omega
      · exact ih before hbefore (fun link hl => hlinks link (List.mem_cons_of_mem _ hl)) f hf
  | @entered levels chain next holder s target t layout links inner spots innerLedger ledger
      hc hf hl _ _ ihinner ih =>
      intro before hbefore hlinks f hmem
      have hown : (before ++ spotsOf t layout next (chain ++ [target])).length
          = next + layout.placed.length := by
        rw [List.length_append, length_spotsOf, hbefore]
      rcases List.mem_append.mp hmem with hmem | hmem
      -- for the links on the new trace, its own segments are among the old spots
      · have hsettled := ihinner (before ++ spotsOf t layout next (chain ++ [target])) hown
          (fun link hlink => ?_) f hmem
        · rw [List.length_append, List.length_singleton, Nat.add_assoc, Nat.add_comm 1] at hsettled
          simpa only [List.append_assoc] using hsettled.mono spots
        · obtain ⟨k, u, _, hk, -, rfl⟩ := mem_linksOn hlink
          have hspot := getElem?_spotsOf t layout next (chain ++ [target]) k
          rw [hk, Option.map_some] at hspot
          exact ⟨_, getElem?_append_at hbefore hspot, rfl, rfl⟩
      · rcases List.mem_cons.mp hmem with rfl | hmem
        · obtain ⟨p, hp, hseg, hchain⟩ := hlinks _ List.mem_cons_self
          subst hchain
          have hspot := getElem?_spotsOf t layout next (p.chain ++ [target]) 0
          rw [Layout.placed, List.getElem?_cons_zero, Option.map_some] at hspot
          have hroot := getElem?_append_at hbefore
            (getElem?_append_some (getElem?_append_some hspot inner) spots)
          exact .entered p _ (getElem?_append_some hp _) hseg hc (by omega) hroot rfl rfl hf rfl
        · have hlength : (before ++ spotsOf t layout next (chain ++ [target]) ++ inner).length
              = next + layout.placed.length + inner.length := by
            rw [List.length_append, hown]
          have hsettled := ih (before ++ spotsOf t layout next (chain ++ [target]) ++ inner) hlength
            (fun link hlink => ?_) f hmem
          · simpa only [List.append_assoc] using hsettled
          · obtain ⟨p, hp, hrest⟩ := hlinks link (List.mem_cons_of_mem _ hlink)
            exact ⟨p, getElem?_append_some (getElem?_append_some hp _) _, hrest⟩

end Travels

/-! ### Journals -/

/-- The parent outside its trace that is known of a root: only the caller names one, and only for
the source trace. -/
def designatedFor (header : Header) (chain : List TraceId) : Option String :=
  if chain.length = 1 then header.parent else none

/-- A spot of the tree of a header. -/
structure Spot.Rooted (options : Options) (found : TraceId → Trace → Prop) (header : Header)
    (p : Spot) : Prop where
  starts : [header.root] <+: p.chain
  short : p.chain.length ≤ options.maxLinkDepth + 1
  distinct : p.chain.Nodup
  last : p.chain.getLast? = some p.trace.id
  laid : Layout.ofTrace p.trace (designatedFor header p.chain) options.orphans = .ok p.layout
  found : found p.trace.id p.trace

/-- The spots and the ledger of a tree. -/
structure Journal (options : Options) (found : TraceId → Trace → Prop) (missing : TraceId → Prop)
    (header : Header) (t : Tree) (spots : List Spot) (ledger : List Followed) : Prop where
  root : t.root = 0
  paths : t.paths = Arena.paths t.nodes 0
  nodes : t.nodes.toList = graft (spots.map Spot.node) ledger
  numbers : spots.map Spot.number = List.range spots.length
  source : ∃ p, spots[0]? = some p ∧ p.entry = 0 ∧ p.chain = [header.root] ∧
    p.trace = t.sourceTrace ∧ p.segment = p.layout.root
  rooted : ∀ p ∈ spots, p.Rooted options found header
  blocks : ∀ p ∈ spots, p ∈ spotsOf p.trace p.layout p.entry p.chain ∧ ∃ front back,
    spots = front ++ spotsOf p.trace p.layout p.entry p.chain ++ back ∧ front.length = p.entry
  bounds : ∀ f ∈ ledger, f.holder < spots.length ∧
    ∀ root, f.fate = .entered root → f.holder < root
  below : (spots.flatMap Spot.below ++ ledger.filterMap Followed.root?).Perm
    (List.range' 1 (spots.length - 1))
  entries : ∀ i, (entriesAt ledger i).map Followed.link = heldBy (linksAt options spots) i
  settled : ∀ f ∈ ledger, Settled (fun id u => found id u ∧ t.childTraces.get? id = some u) missing
    (options.maxLinkDepth + 1) spots f
  unresolved : t.unresolved = ledger.filterMap Followed.unresolved?
  limit : t.linkLimitExceeded = true ↔ ∃ f ∈ ledger, f.fate = .left .depthLimit
  childTraces : ∀ id, (∃ u, t.childTraces.get? id = some u) ↔
    ∃ f ∈ ledger, f.target = id ∧ ∃ root, f.fate = .entered root

section

variable {R : σ → Prop} {found : TraceId → Trace → Prop} {missing : TraceId → Prop}

/-- The journal of a tree, from the account of the links on the source trace. -/
theorem journal_of_account (hid : ∀ id t, found id t → t.id = id) {header : Header} {source : Trace}
    {layout : Layout} {s : σ} {a : Assembly σ} {inner : List Spot} {ledger : List Followed}
    (hfound : found header.root source)
    (hl : Layout.ofTrace source header.parent options.orphans = .ok layout)
    (ha : Account options found missing options.maxLinkDepth ((start s).placed source.id layout)
      (linksOn options (start s).nodes.size layout) a inner ledger) :
    Journal options found missing header (a.left.tree (start s).nodes.size source)
      (spotsOf source layout 0 [header.root] ++ inner) ledger := by
  have hsourceId : source.id = header.root := hid _ _ hfound
  have hsize : ((start s).placed source.id layout).nodes.size = layout.placed.length := by
    rw [size_placed]
    exact Nat.zero_add _
  have hlength : (spotsOf source layout 0 [header.root] ++ inner).length
      = layout.placed.length + inner.length := by
    rw [List.length_append, length_spotsOf]
  have hpos : layout.placed.length = layout.hung.length + 1 := Layout.length_placed layout
  have htravels := ha.travels
  rw [hsize, show ((start s).placed source.id layout).chain = [header.root] by
    rw [← hsourceId]; rfl] at htravels
  have hlinks : ∀ link ∈ linksOn options 0 layout, link.1 < layout.placed.length :=
    fun link hlink => by
      have := (holder_lt_of_mem_linksOn hlink).2
      omega
  constructor
  case root => rfl
  case paths => rfl
  case nodes =>
    have hnodes : ((start s).placed source.id layout).nodes.toList = layout.nodes 0 := by
      simp [placed, start]
    have hgraft := ha.nodes
    rw [hnodes, ← map_node_spotsOf source layout 0 [header.root], ← List.map_append] at hgraft
    exact hgraft
  case numbers =>
    rw [List.map_append, map_number_spotsOf, htravels.numbers, hlength, List.range_eq_range',
      ← List.range'_append_1, Nat.zero_add]
  case source =>
    have hspot := getElem?_spotsOf source layout 0 [header.root] 0
    rw [Layout.placed, List.getElem?_cons_zero, Option.map_some] at hspot
    exact ⟨_, getElem?_append_some hspot inner, rfl, rfl, rfl, rfl⟩
  case rooted =>
    intro p hp
    rcases List.mem_append.mp hp with hp | hp
    · obtain ⟨k, s, -, rfl⟩ := mem_spotsOf.mp hp
      exact ⟨List.prefix_refl _, by simp, List.nodup_singleton _, by simp [hsourceId],
        by simpa [designatedFor] using hl, hsourceId ▸ hfound⟩
    · have hr := htravels.reached (fun id u hu => hid id u hu.1) p hp
      have hlonger := hr.longer
      have hshort := hr.short
      rw [List.length_singleton] at hlonger hshort
      refine ⟨hr.goesOn, by omega, hr.distinct (List.nodup_singleton _), hr.last, ?_, hr.found.1⟩
      rw [designatedFor, if_neg (by omega)]
      exact hr.laid
  case blocks =>
    intro p hp
    rcases List.mem_append.mp hp with hp | hp
    · have hown := hp
      obtain ⟨k, s, -, rfl⟩ := mem_spotsOf.mp hp
      exact ⟨hown, [], inner, rfl, rfl⟩
    · obtain ⟨hown, front, back, hspots, hentry⟩ := htravels.blocks p hp
      refine ⟨hown, spotsOf source layout 0 [header.root] ++ front, back, ?_, ?_⟩
      · rw [hspots]
        simp only [List.append_assoc]
      · rw [List.length_append, length_spotsOf, hentry]
  case bounds =>
    intro f hf
    rw [hlength]
    obtain ⟨hholder, hroot⟩ := htravels.bounds hlinks f hf
    exact ⟨hholder, fun root hr => (hroot root hr).1⟩
  case below =>
    -- of all numbers only that of the source trace's root stands below nothing
    have hall := (perm_below_spotsOf source layout 0 [header.root]).append htravels.below_perm
    have hsplit := @List.range'_append_1 0 layout.placed.length inner.length
    rw [Nat.zero_add] at hsplit
    rw [hsplit, hpos, Nat.add_right_comm, List.range'_succ] at hall
    rw [hlength, hpos, Nat.add_right_comm, Nat.add_sub_cancel, List.flatMap_append,
      List.append_assoc]
    exact (List.perm_cons 0).mp hall
  case entries =>
    intro i
    rw [linksAt_append, ← linksOn_eq_linksAt]
    exact htravels.entries_links hlinks i
  case settled =>
    have hsettled := htravels.settled (spotsOf source layout 0 [header.root])
      (length_spotsOf _ _ _ _) fun link hlink => by
        obtain ⟨k, u, _, hk, -, rfl⟩ := mem_linksOn hlink
        have hspot := getElem?_spotsOf source layout 0 [header.root] k
        rw [hk, Option.map_some] at hspot
        exact ⟨_, (Nat.zero_add k).symm ▸ hspot, rfl, rfl⟩
    rw [List.length_singleton, Nat.add_comm] at hsettled
    exact hsettled
  case unresolved => exact ha.unresolved
  case limit =>
    have hlimit := ha.limit
    simp only [placed, start, Bool.false_eq_true, false_or] at hlimit
    exact hlimit
  case childTraces =>
    intro id
    have hkeys := ha.childTraces id
    simp only [placed, start, Table.get?_nil, reduceCtorEq, exists_false, false_or] at hkeys
    exact hkeys

/-- Every tree has a journal. -/
theorem assemble_journal (hf : Finds l R found) (hid : ∀ id t, found id t → t.id = id)
    (hm : ∀ target s id s', R s → l.trace target s = (.error (.traceNotFound id), s') →
      missing target) {header : Header} {s s' : σ} {t : Tree} (hs : R s)
    (h : Tree.assemble l header options s = (.ok t, s')) :
    ∃ spots ledger, Journal options found missing header t spots ledger := by
  obtain ⟨source, s₁, root, a, hsource, hsplice, rfl, -⟩ := assemble_eq_ok.mp h
  obtain ⟨hs₁, hfound⟩ := hf _ _ _ _ hs hsource
  have hsound : Sound R found (start s₁) := ⟨hs₁, by intro id u hu; cases hu⟩
  obtain ⟨rfl, layout, inner, ledger, hl, a₁, rfl, ha⟩ :=
    splice_account hf hid hm options.maxLinkDepth hsound hsplice
  exact ⟨_, ledger, journal_of_account hid (hfound source rfl) hl ha⟩

end

/-! ### Reading a journal -/

theorem mem_rootsAt {ledger : List Followed} {i c : Nat} :
    c ∈ rootsAt ledger i ↔ ∃ f ∈ ledger, f.holder = i ∧ f.fate = .entered c := by
  unfold rootsAt entriesAt
  simp only [List.mem_filterMap, List.mem_filter, beq_iff_eq, Followed.root?_eq_some, and_assoc]

namespace Journal

variable {found : TraceId → Trace → Prop} {missing : TraceId → Prop} {header : Header} {t : Tree}
  {spots : List Spot} {ledger : List Followed}

/-- There is a spot for each node. -/
theorem size_nodes (h : Journal options found missing header t spots ledger) :
    t.nodes.size = spots.length := by
  have hlength := congrArg List.length h.nodes
  rwa [length_graft, List.length_map, Array.length_toList] at hlength

theorem exists_spot (h : Journal options found missing header t spots ledger) {i : Nat}
    (hi : i < t.nodes.size) : ∃ p, spots[i]? = some p :=
  ⟨_, List.getElem?_eq_getElem (h.size_nodes ▸ hi)⟩

/-- A node has the segment of its spot, and below it first its own trace, then the roots of
others. -/
theorem node_eq (h : Journal options found missing header t spots ledger) {i : Nat} {p : Spot}
    (hp : spots[i]? = some p) : t.nodes[i]? = some ⟨p.segment, p.below ++ rootsAt ledger i⟩ := by
  rw [← Array.getElem?_toList, h.nodes, getElem?_graft, List.getElem?_map, hp]
  rfl

theorem children_eq (h : Journal options found missing header t spots ledger) {i : Nat} {p : Spot}
    (hp : spots[i]? = some p) : Arena.children t.nodes i = p.below ++ rootsAt ledger i :=
  Arena.children_of_getElem? (h.node_eq hp)

/-- Spots are numbered as the nodes are. -/
theorem number_eq (h : Journal options found missing header t spots ledger) {i : Nat} {p : Spot}
    (hp : spots[i]? = some p) : p.number = i := by
  have hi := (List.getElem?_eq_some_iff.mp hp).1
  have hnumber := congrArg (·[i]?) h.numbers
  simp only [List.getElem?_map, hp, Option.map_some, List.getElem?_range hi] at hnumber
  exact Option.some.inj hnumber

/-- A spot is one of the segments placed for its trace. -/
theorem place_eq (h : Journal options found missing header t spots ledger) {i : Nat} {p : Spot}
    (hp : spots[i]? = some p) :
    ∃ k, i = p.entry + k ∧ p.layout.placed[k]? = some p.segment ∧
      p.below = (Layout.below p.layout.hung k).map (p.entry + ·) := by
  have hnumber := h.number_eq hp
  obtain ⟨k, s, hk, hspot⟩ := mem_spotsOf.mp (h.blocks p (List.mem_of_getElem? hp)).1
  have hsegment := congrArg Spot.segment hspot
  have hbelow := congrArg Spot.below hspot
  have hk' := congrArg Spot.number hspot
  exact ⟨k, by rw [← hnumber, hk'], hsegment ▸ hk, hbelow⟩

/-- The segments placed for the trace of a spot all have their spots. -/
theorem same_trace (h : Journal options found missing header t spots ledger) {i : Nat} {p : Spot}
    (hp : spots[i]? = some p) {k : Nat} {s : Segment} (hk : p.layout.placed[k]? = some s) :
    spots[p.entry + k]? = some ⟨p.entry + k, s, (Layout.below p.layout.hung k).map (p.entry + ·),
      p.entry, p.trace, p.layout, p.chain⟩ := by
  obtain ⟨-, front, back, hspots, hentry⟩ := h.blocks p (List.mem_of_getElem? hp)
  have hspot := getElem?_spotsOf p.trace p.layout p.entry p.chain k
  rw [hk, Option.map_some] at hspot
  have hat := getElem?_append_some (getElem?_append_at hentry hspot) back
  rwa [← hspots] at hat

/-- Below a spot stand segments of the same trace, placed when it was. -/
theorem spot_of_below (h : Journal options found missing header t spots ledger) {i c : Nat}
    {p : Spot} (hp : spots[i]? = some p) (hc : c ∈ p.below) :
    i < c ∧ ∃ q, spots[c]? = some q ∧ q.entry = p.entry ∧ q.chain = p.chain ∧ q.trace = p.trace ∧
      q.layout = p.layout ∧ c ≠ q.entry := by
  obtain ⟨k, rfl, -, hbelow⟩ := h.place_eq hp
  rw [hbelow] at hc
  obtain ⟨j, hj, rfl⟩ := List.mem_map.mp hc
  obtain ⟨hlt, hplaced⟩ := p.layout.below_bounds hj
  have hspot := h.same_trace hp (List.getElem?_eq_getElem hplaced)
  exact ⟨Nat.add_lt_add_left hlt _, _, hspot, rfl, rfl, rfl, rfl, by simp only; omega⟩

/-- Below a spot, behind the segments of the same trace, stand the roots of the traces that its
links lead to. -/
theorem spot_of_root (h : Journal options found missing header t spots ledger) {i c : Nat}
    {p : Spot} (hp : spots[i]? = some p) (hc : c ∈ rootsAt ledger i) :
    i < c ∧ ∃ f ∈ ledger, f.holder = i ∧ f.fate = .entered c ∧ f.target ∉ p.chain ∧
      ∃ q, spots[c]? = some q ∧ q.entry = c ∧ q.chain = p.chain ++ [f.target] ∧
        t.childTraces.get? f.target = some q.trace ∧ q.segment = q.layout.root := by
  obtain ⟨f, hf, rfl, hfate⟩ := mem_rootsAt.mp hc
  refine ⟨(h.bounds f hf).2 c hfate, f, hf, rfl, hfate, ?_⟩
  cases h.settled f hf with
  | left p' _ _ _ _ _ => cases hfate
  | entered p' q hp' hseg htarget hlevel hq hentry hchain hfound hroot =>
      cases hfate
      obtain rfl := Option.some.inj (hp.symm.trans hp')
      exact ⟨htarget, q, hq, hentry, hchain, hfound.2, hroot⟩

/-- The arena of a tree is one tree. -/
theorem isTree (h : Journal options found missing header t spots ledger) :
    Arena.IsTree t.nodes where
  pos := by
    obtain ⟨p, hp, -⟩ := h.source
    rw [h.size_nodes]
    exact (List.getElem?_eq_some_iff.mp hp).1
  ascends i c hc := by
    obtain ⟨n, hn, -⟩ := Arena.getElem?_of_mem_children hc
    obtain ⟨p, hp⟩ := h.exists_spot (Array.getElem?_eq_some_iff.mp hn).1
    rw [h.children_eq hp, List.mem_append] at hc
    rcases hc with hc | hc
    · exact (h.spot_of_below hp hc).1
    · exact (h.spot_of_root hp hc).1
  once := by
    have hspots : (spots.flatMap fun p => Arena.children t.nodes p.number)
        = spots.flatMap fun p => p.below ++ rootsAt ledger p.number := by
      refine List.flatMap_congr fun p hp => ?_
      obtain ⟨i, hi⟩ := List.mem_iff_getElem?.mp hp
      rw [h.number_eq hi, h.children_eq hi]
    -- the ledger is in the order in which links were followed, not in that of the nodes
    have hroots : (spots.flatMap fun p => rootsAt ledger p.number).Perm
        (ledger.filterMap Followed.root?) := by
      have hentries := perm_flatMap_filter Followed.holder (List.range spots.length) ledger
        List.nodup_range fun f hf => List.mem_range.mpr (h.bounds f hf).1
      rw [← List.flatMap_map, h.numbers]
      unfold rootsAt
      rw [← List.filterMap_flatMap]
      exact hentries.filterMap _
    rw [Arena.allChildren_eq, h.size_nodes, ← h.numbers, List.flatMap_map, hspots]
    exact (List.flatMap_append_perm _ _ _).symm.trans ((hroots.append_left _).trans h.below)

end Journal

end CausalTrace.Assembly

/-! ### Charts -/

namespace CausalTrace

open Assembly in
/-- Spots and a ledger that describe a tree: there is a spot for each node, which says for which
trace the node stands and at which depth. -/
structure Tree.Charted (t : Tree) (header : Header) (options : Options)
    (spots : List Spot) (ledger : List Followed) : Prop where
  /-- The children of a node are those in its own trace, and behind them the roots that its entries
  give, in the order of the entries. -/
  nodes : t.nodes.toList = graft (spots.map Spot.node) ledger
  numbers : ∀ (i : Nat) (p : Spot), spots[i]? = some p → p.number = i
  /-- The first node is the root of the source trace, at depth zero. -/
  source : ∃ p : Spot, spots[0]? = some p ∧ p.entry = 0 ∧ p.trace = t.sourceTrace ∧
    p.chain = [header.root]
  /-- The children in the trace of a node are of that trace, were placed with it, and are at the
  same depth. -/
  below : ∀ (i c : Nat) (p : Spot), spots[i]? = some p → c ∈ p.below →
    ∃ q : Spot, spots[c]? = some q ∧ c ≠ q.entry ∧ q.entry = p.entry ∧ q.trace = p.trace ∧
      q.chain = p.chain
  /-- Every node but the first stands at exactly one place: below a node of its own trace, or as the
  root that one of the entries gives. -/
  places : (spots.flatMap Spot.below ++ ledger.filterMap Followed.root?).Perm
    (List.range' 1 (spots.length - 1))
  segments : ∀ p ∈ spots, p.segment ∈ p.trace.segments
  depths : ∀ p ∈ spots, p.depth ≤ options.maxLinkDepth
  /-- No entry belongs to anything else than a node. -/
  holders : ∀ f ∈ ledger, f.holder < t.nodes.size
  /-- A trace that was entered is the one that is remembered, one level deeper. -/
  entered : ∀ f ∈ ledger, ∀ root, f.fate = .entered root → ∃ p q : Spot,
    spots[f.holder]? = some p ∧ spots[root]? = some q ∧ q.entry = root ∧
      q.chain = p.chain ++ [f.target] ∧ t.childTraces.get? f.target = some q.trace

namespace Assembly

variable {options : Options}

/-- The chain of a spot has one trace for each level, and the source trace. -/
theorem Spot.Rooted.depth_eq {found : TraceId → Trace → Prop} {header : Header} {p : Spot}
    (h : p.Rooted options found header) : p.chain.length = p.depth + 1 := by
  have hpos := h.starts.length_le
  rw [List.length_singleton] at hpos
  rw [Spot.depth]
  omega

/-- A tree is charted by its journal. -/
theorem Journal.charted {found : TraceId → Trace → Prop} {missing : TraceId → Prop}
    {header : Header} {t : Tree} {spots : List Spot} {ledger : List Followed}
    (h : Journal options found missing header t spots ledger) :
    t.Charted header options spots ledger where
  nodes := h.nodes
  numbers i p hp := h.number_eq hp
  source := by
    obtain ⟨p, hp, hentry, hchain, htrace, -⟩ := h.source
    exact ⟨p, hp, hentry, htrace, hchain⟩
  below i c p hp hc := by
    obtain ⟨-, q, hq, hentry, hchain, htrace, -, hne⟩ := h.spot_of_below hp hc
    exact ⟨q, hq, hne, hentry, htrace, hchain⟩
  places := h.below
  segments p hp := by
    obtain ⟨i, hi⟩ := List.mem_iff_getElem?.mp hp
    obtain ⟨k, -, hk, -⟩ := h.place_eq hi
    exact Layout.mem_segments_of_mem_placed (h.rooted p hp).laid (List.mem_of_getElem? hk)
  depths p hp := by
    have hshort := (h.rooted p hp).short
    have hdepth := (h.rooted p hp).depth_eq
    omega
  holders f hf := by
    rw [h.size_nodes]
    exact (h.bounds f hf).1
  entered f hf root hroot := by
    cases h.settled f hf with
    | left _ _ _ _ _ => cases hroot
    | entered p q hp _ _ _ hq hentry hchain hremembered _ =>
        cases hroot
        exact ⟨p, q, hp, hq, hentry, hchain, hremembered.2⟩

end Assembly

end CausalTrace
