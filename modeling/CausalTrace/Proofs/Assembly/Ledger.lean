import CausalTrace.Proofs.Assembly.Placement
import CausalTrace.Proofs.Assembly.Step

/-!
# The ledger of an assembly

When an assembly succeeds, all that it did can be read off two lists: the **spots**, one for each
node in the order of their numbers, and the **ledger**, one entry for each link in the order in
which the links were dealt with.  The relation `Travels` says which spots and entries following
links leads to; `Account` says how they show in the arena and in the other parts of the assembly.

## Main definitions

* `Spot` — a node, with the trace it is placed for and the traces entered on the way to it
* `Followed`, `Fate` — a link, and what became of it
* `Travels` — the spots and entries that following links leads to
* `Account` — an assembly, and the one it was before, compared through spots and entries

## Main statements

* `Assembly.splice_account` — a trace that is entered has an account

## Design notes

`Travels` is one inductive relation for all levels: what a link leads to is entered with one level
less and comes back to the remaining links.  Facts about a whole run are inductions over it, with
one case for each thing that can become of a link.  The arena is not part of the relation; it is
built from spots and entries by `graft`, which appends the roots that a node holds links to behind
the children that it has from its own trace.
-/

namespace CausalTrace.Assembly

variable {σ : Type} {l : Lookup σ} {options : Options}

/-! ### Spots -/

/-- A node, and how it came to be placed. -/
structure Spot where
  number : Nat
  segment : Segment
  /-- The numbers of the segments of the same trace that are below it. -/
  below : List Nat
  /-- The number of the root of the trace, as it was entered for this node. -/
  entry : Nat
  trace : Trace
  layout : Layout
  /-- The traces entered from the source on, the one of this node last. -/
  chain : List TraceId

namespace Spot

/-- The node, before roots of other traces are put below it. -/
def node (p : Spot) : Node := ⟨p.segment, p.below⟩

/-- How many links lead from the source trace to the trace of the node. -/
def depth (p : Spot) : Nat := p.chain.length - 1

end Spot

/-- The spots of a trace whose root has number `base`. -/
def spotsOf (t : Trace) (layout : Layout) (base : Nat) (chain : List TraceId) : List Spot :=
  layout.placed.zipIdx.map fun e =>
    ⟨base + e.2, e.1, (Layout.below layout.hung e.2).map (base + ·), base, t, layout, chain⟩

/-- The spots of a trace have the nodes of its layout. -/
theorem map_node_spotsOf (t : Trace) (layout : Layout) (base : Nat) (chain : List TraceId) :
    (spotsOf t layout base chain).map Spot.node = layout.nodes base := by
  unfold spotsOf Layout.nodes
  rw [List.map_map]
  rfl

@[simp] theorem length_spotsOf (t : Trace) (layout : Layout) (base : Nat) (chain : List TraceId) :
    (spotsOf t layout base chain).length = layout.placed.length := by
  simp [spotsOf]

/-- The spot of the `k`-th segment placed has the `k`-th number from the root on. -/
theorem getElem?_spotsOf (t : Trace) (layout : Layout) (base : Nat) (chain : List TraceId)
    (k : Nat) : (spotsOf t layout base chain)[k]? = layout.placed[k]?.map fun s =>
      ⟨base + k, s, (Layout.below layout.hung k).map (base + ·), base, t, layout, chain⟩ := by
  simp [spotsOf, Function.comp_def]

theorem map_number_spotsOf (t : Trace) (layout : Layout) (base : Nat) (chain : List TraceId) :
    (spotsOf t layout base chain).map Spot.number = List.range' base layout.placed.length := by
  have h : (spotsOf t layout base chain).map Spot.number
      = (layout.placed.zipIdx.map Prod.snd).map (base + ·) := by
    unfold spotsOf
    rw [List.map_map, List.map_map]
    rfl
  rw [h, List.zipIdx_map_snd, List.map_add_range']
  rfl

/-- The spots of a trace are those of the segments placed. -/
theorem mem_spotsOf {t : Trace} {layout : Layout} {base : Nat} {chain : List TraceId} {p : Spot} :
    p ∈ spotsOf t layout base chain ↔
      ∃ k s, layout.placed[k]? = some s ∧
        p = ⟨base + k, s, (Layout.below layout.hung k).map (base + ·), base, t, layout, chain⟩ := by
  unfold spotsOf
  rw [List.mem_map]
  constructor
  · rintro ⟨⟨s, k⟩, hm, rfl⟩
    exact ⟨k, s, List.mk_mem_zipIdx_iff_getElem?.mp hm, rfl⟩
  · rintro ⟨k, s, hk, rfl⟩
    exact ⟨(s, k), List.mk_mem_zipIdx_iff_getElem?.mpr hk, rfl⟩

/-! ### Entries -/

/-- What became of a link. -/
inductive Fate
  /-- It was not followed. -/
  | left (reason : UnresolvedReason)
  /-- The trace it leads to was entered, and its root has this number. -/
  | entered (root : Nat)
  deriving DecidableEq

/-- A link, and what became of it. -/
structure Followed where
  /-- The number of the node that holds the link. -/
  holder : Nat
  segment : Segment
  target : TraceId
  fate : Fate

namespace Followed

/-- The root of the trace that was entered. -/
def root? (f : Followed) : Option Nat :=
  match f.fate with
  | .left _ => none
  | .entered root => some root

/-- The note that was taken of a link that was not followed. -/
def unresolved? (f : Followed) : Option UnresolvedLink :=
  match f.fate with
  | .left reason => some ⟨f.segment.id, f.target, reason⟩
  | .entered _ => none

/-- The link as it is held by its node. -/
def link (f : Followed) : Nat × Segment × TraceId := (f.holder, f.segment, f.target)

theorem root?_eq_some {f : Followed} {root : Nat} :
    f.root? = some root ↔ f.fate = .entered root := by
  unfold root?
  cases f.fate <;> simp

/-- A note names the segment, the target and the reason why the link was left. -/
theorem unresolved?_eq_some {f : Followed} {u : UnresolvedLink} :
    f.unresolved? = some u ↔
      ∃ reason, f.fate = .left reason ∧ u = ⟨f.segment.id, f.target, reason⟩ := by
  unfold unresolved?
  cases f.fate <;> simp [eq_comm]

end Followed

/-- The entries of the links that a node holds. -/
def entriesAt (ledger : List Followed) (i : Nat) : List Followed :=
  ledger.filter fun f => f.holder == i

/-- The roots of the traces that were entered through links that a node holds. -/
def rootsAt (ledger : List Followed) (i : Nat) : List Nat :=
  (entriesAt ledger i).filterMap Followed.root?

/-- Nodes with the roots that they hold links to behind their children. -/
def graft (nodes : List Node) (ledger : List Followed) : List Node :=
  nodes.mapIdx fun i n => { n with children := n.children ++ rootsAt ledger i }

theorem rootsAt_append (first second : List Followed) (i : Nat) :
    rootsAt (first ++ second) i = rootsAt first i ++ rootsAt second i := by
  simp [rootsAt, entriesAt]

theorem rootsAt_eq_nil {ledger : List Followed} {i : Nat} (h : ∀ f ∈ ledger, f.holder ≠ i) :
    rootsAt ledger i = [] := by
  have hnone : entriesAt ledger i = [] := List.filter_eq_nil_iff.mpr fun f hf => by
    simpa using h f hf
  rw [rootsAt, hnone, List.filterMap_nil]

@[simp] theorem length_graft (nodes : List Node) (ledger : List Followed) :
    (graft nodes ledger).length = nodes.length := by
  simp [graft]

/-- A node gets the roots behind its own children. -/
theorem getElem?_graft (nodes : List Node) (ledger : List Followed) (i : Nat) :
    (graft nodes ledger)[i]?
      = nodes[i]?.map fun n => { n with children := n.children ++ rootsAt ledger i } := by
  simp [graft]

@[simp] theorem graft_nil (nodes : List Node) : graft nodes [] = nodes := by
  apply List.ext_getElem?
  intro i
  rw [getElem?_graft]
  cases nodes[i]? <;> simp [rootsAt, entriesAt]

theorem graft_graft (nodes : List Node) (first second : List Followed) :
    graft (graft nodes first) second = graft nodes (first ++ second) := by
  apply List.ext_getElem?
  intro i
  simp only [getElem?_graft, rootsAt_append]
  cases nodes[i]? <;> simp

/-- Nodes that hold none of the links stay as they are. -/
theorem graft_append {nodes : List Node} (more : List Node) {ledger : List Followed}
    (h : ∀ f ∈ ledger, f.holder < nodes.length) :
    graft (nodes ++ more) ledger = graft nodes ledger ++ more := by
  apply List.ext_getElem?
  intro i
  rw [getElem?_graft]
  rcases Nat.lt_or_ge i nodes.length with hi | hi
  · rw [List.getElem?_append_left hi, List.getElem?_append_left (by simpa using hi),
      getElem?_graft]
  · have hroots : rootsAt ledger i = [] := rootsAt_eq_nil fun f hf => by
      have := h f hf
      omega
    rw [List.getElem?_append_right hi, List.getElem?_append_right (by simpa using hi),
      length_graft, hroots]
    cases more[i - nodes.length]? <;> simp

/-- A link that was not followed does not show in the arena. -/
theorem graft_cons_left (nodes : List Node) (holder : Nat) (s : Segment) (target : TraceId)
    (reason : UnresolvedReason) (ledger : List Followed) :
    graft nodes (⟨holder, s, target, .left reason⟩ :: ledger) = graft nodes ledger := by
  have hroots : ∀ i,
      rootsAt (⟨holder, s, target, .left reason⟩ :: ledger) i = rootsAt ledger i := by
    intro i
    unfold rootsAt entriesAt
    rw [List.filter_cons]
    split
    · rw [List.filterMap_cons_none rfl]
    · rfl
  simp [graft, hroots]

/-- Putting a root below the node that holds the link to it. -/
theorem graft_attach (nodes : Arena) (holder root : Nat) (s : Segment) (target : TraceId) :
    (Arena.attach nodes holder root).toList
      = graft nodes.toList [⟨holder, s, target, .entered root⟩] := by
  apply List.ext_getElem?
  intro i
  unfold Arena.attach graft
  rw [Array.toList_modify, List.getElem?_modify, List.getElem?_mapIdx]
  by_cases hi : holder = i
  · simp [hi, rootsAt, entriesAt, Followed.root?]
  · simp [hi, rootsAt, entriesAt]

/-! ### The relation -/

/-- The spots and entries that following links leads to, given how many levels are left, the traces
being entered, and the number of the next node.  `found` says which trace may be had for a target,
`missing` which targets may turn out not to be there. -/
inductive Travels (options : Options) (found : TraceId → Trace → Prop) (missing : TraceId → Prop) :
    Nat → List TraceId → Nat → List (Nat × Segment × TraceId) → List Spot → List Followed → Prop
  /-- No link is left. -/
  | done {levels : Nat} {chain : List TraceId} {next : Nat} :
      Travels options found missing levels chain next [] [] []
  /-- The first link is not followed. -/
  | left {levels : Nat} {chain : List TraceId} {next holder : Nat} {s : Segment}
      {target : TraceId} {reason : UnresolvedReason} {links : List (Nat × Segment × TraceId)}
      {spots : List Spot} {ledger : List Followed} :
      target ∉ chain → (reason = .depthLimit ↔ levels = 0) →
      (reason = .notFound → missing target) →
      Travels options found missing levels chain next links spots ledger →
      Travels options found missing levels chain next ((holder, s, target) :: links) spots
        (⟨holder, s, target, .left reason⟩ :: ledger)
  /-- The trace that the first link leads to is entered. -/
  | entered {levels : Nat} {chain : List TraceId} {next holder : Nat} {s : Segment}
      {target : TraceId} {t : Trace} {layout : Layout} {links : List (Nat × Segment × TraceId)}
      {inner spots : List Spot} {innerLedger ledger : List Followed} :
      target ∉ chain → found target t → Layout.ofTrace t none options.orphans = .ok layout →
      Travels options found missing levels (chain ++ [target]) (next + layout.placed.length)
        (linksOn options next layout) inner innerLedger →
      Travels options found missing (levels + 1) chain
        (next + layout.placed.length + inner.length) links spots ledger →
      Travels options found missing (levels + 1) chain next ((holder, s, target) :: links)
        (spotsOf t layout next (chain ++ [target]) ++ inner ++ spots)
        (innerLedger ++ ⟨holder, s, target, .entered next⟩ :: ledger)

namespace Travels

variable {found found' : TraceId → Trace → Prop} {missing : TraceId → Prop} {levels next : Nat}
  {chain : List TraceId} {links : List (Nat × Segment × TraceId)} {spots : List Spot}
  {ledger : List Followed}

/-- What may be had for a target may be described more loosely. -/
theorem mono (hfound : ∀ id t, found id t → found' id t)
    (h : Travels options found missing levels chain next links spots ledger) :
    Travels options found' missing levels chain next links spots ledger := by
  induction h with
  | done => exact .done
  | left hc hreason hmissing _ ih => exact .left hc hreason hmissing ih
  | entered hc hf hl _ _ ihinner ih => exact .entered hc (hfound _ _ hf) hl ihinner ih

end Travels

/-- A link on a layout is that of a segment placed, with a target of its links. -/
theorem mem_linksOn {base : Nat} {layout : Layout} {link : Nat × Segment × TraceId}
    (h : link ∈ linksOn options base layout) :
    ∃ k s target, layout.placed[k]? = some s ∧ target ∈ targets s ∧
      link = (base + k, s, target) := by
  unfold linksOn at h
  split at h
  · obtain ⟨⟨s, i⟩, hm, hlink⟩ := List.mem_flatMap.mp h
    obtain ⟨target, ht, rfl⟩ := List.mem_map.mp hlink
    obtain ⟨hle, hk⟩ := List.mk_mem_zipIdx_iff_le_and_getElem?_sub.mp hm
    refine ⟨i - base, s, target, hk, ht, ?_⟩
    rw [Nat.add_sub_cancel' hle]
  · cases h

/-- There are links only when links are to be followed. -/
theorem fetch_of_mem_linksOn {base : Nat} {layout : Layout} {link : Nat × Segment × TraceId}
    (h : link ∈ linksOn options base layout) : options.fetchChildTraces = true := by
  unfold linksOn at h
  split at h
  · next hfetch => exact hfetch
  · cases h

/-- The links on a layout are held by its nodes. -/
theorem holder_lt_of_mem_linksOn {base : Nat} {layout : Layout} {link : Nat × Segment × TraceId}
    (h : link ∈ linksOn options base layout) :
    base ≤ link.1 ∧ link.1 < base + layout.placed.length := by
  obtain ⟨k, s, target, hk, -, rfl⟩ := mem_linksOn h
  have hlt := (List.getElem?_eq_some_iff.mp hk).1
  exact ⟨Nat.le_add_right _ _, Nat.add_lt_add_left hlt _⟩

namespace Travels

variable {found : TraceId → Trace → Prop} {missing : TraceId → Prop} {levels next : Nat}
  {chain : List TraceId} {links : List (Nat × Segment × TraceId)} {spots : List Spot}
  {ledger : List Followed}

/-- Entries have their holder among the nodes, and their root behind it among the new ones. -/
theorem bounds (h : Travels options found missing levels chain next links spots ledger) :
    (∀ link ∈ links, link.1 < next) →
    ∀ f ∈ ledger, f.holder < next + spots.length ∧
      ∀ root, f.fate = .entered root →
        f.holder < root ∧ next ≤ root ∧ root < next + spots.length := by
  induction h with
  | done => simp
  | left _ _ _ _ ih =>
      intro hlinks f hf
      rcases List.mem_cons.mp hf with rfl | hf
      · have := hlinks _ List.mem_cons_self
        exact ⟨by simp only at this ⊢; omega, by simp⟩
      · exact ih (fun link hl => hlinks link (List.mem_cons_of_mem _ hl)) f hf
  | @entered levels chain next holder s target t layout links inner spots innerLedger ledger
      _ _ _ _ _ ihinner ih =>
      intro hlinks f hf
      have hlen : (spotsOf t layout next (chain ++ [target]) ++ inner ++ spots).length
          = layout.placed.length + inner.length + spots.length := by
        simp [Nat.add_assoc]
      have hpos : 0 < layout.placed.length := by
        rw [Layout.length_placed]
        omega
      -- an entry of the ledger is one of the trace entered, the link to it, or one of the links
      -- after it
      rw [hlen]
      rcases List.mem_append.mp hf with hf | hf
      · obtain ⟨hlt, hroot⟩ := ihinner (fun link hl => (holder_lt_of_mem_linksOn hl).2) f hf
        refine ⟨by omega, fun root hr => ?_⟩
        obtain ⟨h₁, h₂, h₃⟩ := hroot root hr
        exact ⟨h₁, by omega, by omega⟩
      · rcases List.mem_cons.mp hf with rfl | hf
        · have hh : holder < next := hlinks _ List.mem_cons_self
          refine ⟨by simp only; omega, fun root hr => ?_⟩
          cases hr
          exact ⟨hh, Nat.le_refl _, by omega⟩
        · obtain ⟨hlt, hroot⟩ := ih (fun link hl => by
            have : link.1 < next := hlinks link (List.mem_cons_of_mem _ hl)
            omega) f hf
          refine ⟨by omega, fun root hr => ?_⟩
          obtain ⟨h₁, h₂, h₃⟩ := hroot root hr
          exact ⟨h₁, by omega, by omega⟩

/-- The spots carry the numbers from the next one on. -/
theorem numbers (h : Travels options found missing levels chain next links spots ledger) :
    spots.map Spot.number = List.range' next spots.length := by
  induction h with
  | done => rfl
  | left _ _ _ _ ih => exact ih
  | @entered levels chain next holder s target t layout links inner spots innerLedger ledger
      _ _ _ _ _ ihinner ih =>
      rw [List.map_append, List.map_append, map_number_spotsOf, ihinner, ih, List.length_append,
        List.length_append, length_spotsOf, List.range'_append_1, Nat.add_assoc,
        List.range'_append_1]

end Travels

/-! ### Accounts -/

/-- A layout adds a node for each segment that it places. -/
theorem size_placed (a : Assembly σ) (id : TraceId) (layout : Layout) :
    (a.placed id layout).nodes.size = a.nodes.size + layout.placed.length := by
  simp [placed, Layout.nodes]

/-- An assembly after links were followed, compared with the one before. -/
structure Account (options : Options) (found : TraceId → Trace → Prop) (missing : TraceId → Prop)
    (levels : Nat) (a : Assembly σ) (links : List (Nat × Segment × TraceId)) (a' : Assembly σ)
    (spots : List Spot) (ledger : List Followed) : Prop where
  /-- Traces are entered as they are remembered in the end. -/
  travels : Travels options (fun id t => found id t ∧ a'.childTraces.get? id = some t) missing
    levels a.chain a.nodes.size links spots ledger
  nodes : a'.nodes.toList = graft (a.nodes.toList ++ spots.map Spot.node) ledger
  unresolved : a'.unresolved = a.unresolved ++ ledger.filterMap Followed.unresolved?
  limit : a'.linkLimitExceeded = true ↔
    a.linkLimitExceeded = true ∨ ∃ f ∈ ledger, f.fate = .left .depthLimit
  childTraces : ∀ id, (∃ t, a'.childTraces.get? id = some t) ↔
    (∃ t, a.childTraces.get? id = some t) ∨
      ∃ f ∈ ledger, f.target = id ∧ ∃ root, f.fate = .entered root

namespace Account

variable {found : TraceId → Trace → Prop} {missing : TraceId → Prop} {levels : Nat}
  {a a₁ a₂ a' : Assembly σ} {links : List (Nat × Segment × TraceId)} {spots inner : List Spot}
  {ledger innerLedger : List Followed} {holder : Nat} {s : Segment} {target : TraceId}

private theorem exists_mem_append_cons {P : Followed → Prop} {f : Followed} :
    (∃ g ∈ innerLedger ++ f :: ledger, P g) ↔
      (∃ g ∈ innerLedger, P g) ∨ P f ∨ ∃ g ∈ ledger, P g := by
  simp only [List.mem_append, List.mem_cons, or_and_right, exists_or, exists_eq_left]

theorem nil (a : Assembly σ) : Account options found missing levels a [] a [] [] where
  travels := .done
  nodes := by simp
  unresolved := by simp
  limit := by simp
  childTraces := by simp

/-- The account of a link that was not followed, and of the others. -/
theorem consLeft {reason : UnresolvedReason}
    (h : Account options found missing levels a₁ links a' spots ledger)
    (hnote : a₁.unresolved = a.unresolved ++ [⟨s.id, target, reason⟩])
    (hlimit : a₁.linkLimitExceeded = true ↔ a.linkLimitExceeded = true ∨ reason = .depthLimit)
    (hchain : a₁.chain = a.chain) (hnodes : a₁.nodes = a.nodes)
    (htable : a₁.childTraces = a.childTraces) (hc : target ∉ a.chain)
    (hreason : reason = .depthLimit ↔ levels = 0)
    (hmissing : reason = .notFound → missing target) :
    Account options found missing levels a ((holder, s, target) :: links) a' spots
      (⟨holder, s, target, .left reason⟩ :: ledger) where
  travels := .left hc hreason hmissing (hchain ▸ hnodes ▸ h.travels)
  nodes := by
    rw [h.nodes, hnodes, graft_cons_left]
  unresolved := by
    rw [h.unresolved, hnote]
    simp [Followed.unresolved?]
  limit := by
    rw [h.limit, hlimit]
    simp [or_assoc]
  childTraces id := by
    rw [h.childTraces, htable]
    refine or_congr_right ?_
    constructor
    · rintro ⟨f, hf, hid, hroot⟩
      exact ⟨f, List.mem_cons_of_mem _ hf, hid, hroot⟩
    · rintro ⟨f, hf, hid, root, hroot⟩
      rcases List.mem_cons.mp hf with rfl | hf
      · cases hroot
      · exact ⟨f, hf, hid, root, hroot⟩

/-- The account of a link whose trace was entered, and of the others. -/
theorem consEntered {t : Trace} {layout : Layout} (hc : target ∉ a.chain)
    (hid : t.id = target) (hf : found target t) (ho : Obtains l target a t a₁)
    (hl : Layout.ofTrace t none options.orphans = .ok layout)
    (hlinks : ∀ link ∈ (holder, s, target) :: links, link.1 < a.nodes.size)
    (hinner : Account options found missing levels (a₁.placed t.id layout)
      (linksOn options a₁.nodes.size layout) a₂ inner innerLedger)
    (hframe₁ : Frame a₁ a₂.left)
    (hframe : Frame { a₂.left with nodes := Arena.attach a₂.left.nodes holder a₁.nodes.size } a')
    (h : Account options found missing (levels + 1)
      { a₂.left with nodes := Arena.attach a₂.left.nodes holder a₁.nodes.size } links a' spots
      ledger) :
    Account options found missing (levels + 1) a ((holder, s, target) :: links) a'
      (spotsOf t layout a.nodes.size (a.chain ++ [target]) ++ inner ++ spots)
      (innerLedger ++ ⟨holder, s, target, .entered a.nodes.size⟩ :: ledger) := by
  subst hid
  obtain ⟨hchain, hnodes, hnotes, hlimit⟩ := ho.same
  have hplaced : (a₁.placed t.id layout).nodes.toList
      = a.nodes.toList ++ layout.nodes a.nodes.size := by
    simp [placed, hnodes]
  have hplacedSize : (a₁.placed t.id layout).nodes.size = a.nodes.size + layout.placed.length := by
    rw [size_placed, hnodes]
  have hsize : (Arena.attach a₂.left.nodes holder a₁.nodes.size).size
      = a.nodes.size + layout.placed.length + inner.length := by
    have hlen := congrArg List.length hinner.nodes
    simp only [Array.length_toList, length_graft, List.length_append, List.length_map,
      hplacedSize] at hlen
    simpa [Arena.attach, left] using hlen
  -- the nodes that come with the remaining links hold none of the links followed so far
  have hbelow : ∀ f ∈ innerLedger ++ [⟨holder, s, t.id, .entered a.nodes.size⟩],
      f.holder < (a.nodes.toList ++ layout.nodes a.nodes.size ++ inner.map Spot.node).length := by
    have hlength : (a.nodes.toList ++ layout.nodes a.nodes.size ++ inner.map Spot.node).length
        = a.nodes.size + layout.placed.length + inner.length := by
      simp [Layout.nodes, Nat.add_assoc]
    intro f hf
    rw [hlength]
    rcases List.mem_append.mp hf with hf | hf
    · have hb := (hinner.travels.bounds (fun link hlink => by
        rw [hplacedSize]
        exact hnodes ▸ (holder_lt_of_mem_linksOn hlink).2) f hf).1
      rwa [hplacedSize] at hb
    · obtain rfl := List.mem_singleton.mp hf
      have hh : holder < a.nodes.size := hlinks _ List.mem_cons_self
      simp only
      omega
  constructor
  case travels =>
    refine .entered hc ⟨hf, hframe.childTraces _ _ (hframe₁.childTraces _ _ ho.remembered)⟩ hl ?_ ?_
    · have htravels := hinner.travels.mono fun id u hu =>
        And.intro hu.1 (hframe.childTraces id u hu.2)
      rw [hplacedSize, hnodes] at htravels
      simpa [placed, hchain] using htravels
    · have htravels := h.travels
      rw [hsize, hframe₁.chain, hchain] at htravels
      exact htravels
  case nodes =>
    rw [h.nodes, graft_attach _ _ _ s t.id]
    have hleft : a₂.left.nodes.toList
        = graft (a.nodes.toList ++ layout.nodes a.nodes.size ++ inner.map Spot.node)
            innerLedger := by
      rw [← hplaced]
      exact hinner.nodes
    rw [hleft, graft_graft, hnodes, ← graft_append _ hbelow, graft_graft, List.map_append,
      List.map_append, map_node_spotsOf]
    simp only [List.append_assoc, List.singleton_append]
  case unresolved =>
    have hu : a₂.unresolved = a.unresolved ++ innerLedger.filterMap Followed.unresolved? := by
      rw [hinner.unresolved]
      simp [placed, hnotes]
    rw [h.unresolved, List.filterMap_append, List.filterMap_cons_none rfl, ← List.append_assoc,
      ← hu]
    rfl
  case limit =>
    have hu : a₂.linkLimitExceeded = true ↔
        a.linkLimitExceeded = true ∨ ∃ f ∈ innerLedger, f.fate = .left .depthLimit := by
      rw [hinner.limit]
      simp [placed, hlimit]
    rw [h.limit, exists_mem_append_cons]
    simp only [left, hu, reduceCtorEq, false_or, or_assoc]
  case childTraces =>
    intro id
    have hu := hinner.childTraces id
    simp only [placed, ho.keys] at hu
    rw [h.childTraces, exists_mem_append_cons]
    simp only [left, hu, Fate.entered.injEq, exists_eq', and_true, or_assoc, eq_comm (a := id)]
    exact or_congr_right or_left_comm

end Account

/-! ### Every run has an account -/

/-- A trace was entered, with an account of the links on it. -/
structure Entering (options : Options) (found : TraceId → Trace → Prop) (missing : TraceId → Prop)
    (levels : Nat) (t : Trace) (designated : Option String) (a a' : Assembly σ) (layout : Layout)
    (spots : List Spot) (ledger : List Followed) : Prop where
  ofTrace : Layout.ofTrace t designated options.orphans = .ok layout
  account : ∃ a₁, a' = a₁.left ∧ Account options found missing levels (a.placed t.id layout)
    (linksOn options a.nodes.size layout) a₁ spots ledger

section

variable {R : σ → Prop} {found : TraceId → Trace → Prop} {missing : TraceId → Prop}
  (hf : Finds l R found) (hid : ∀ id t, found id t → t.id = id)
  (hm : ∀ target s id s', R s → l.trace target s = (.error (.traceNotFound id), s') →
    missing target)

include hf hid hm in
/-- Following links has an account, if entering the traces they lead to has. -/
theorem followAll_account {levels : Nat}
    (hsplice : ∀ n, levels = n + 1 → ∀ {t : Trace} {designated : Option String} {a a' : Assembly σ}
      {root : Nat}, Sound R found a → splice l options n t designated a = (.ok root, a') →
      root = a.nodes.size ∧ ∃ layout spots ledger,
        Entering options found missing n t designated a a' layout spots ledger) :
    ∀ {links : List (Nat × Segment × TraceId)} {a a' : Assembly σ},
      (∀ link ∈ links, link.1 < a.nodes.size) → Sound R found a →
      followAll l (deeper l options levels) links a = (.ok (), a') →
      ∃ spots ledger, Account options found missing levels a links a' spots ledger := by
  intro links
  induction links with
  | nil =>
      intro a a' _ _ h
      rw [followAll_nil] at h
      cases h
      exact ⟨[], [], .nil a⟩
  | cons link rest ih =>
      intro a a' hlinks hs h
      obtain ⟨holder, s, target⟩ := link
      obtain ⟨a₃, hstep, hrest⟩ := followAll_cons_ok h
      have hs₃ : Sound R found a₃ := (respected_sound hf).step hstep hs
      have hframe₃ : Frame a a₃ := (respected_frame l).step hstep
      -- the account is put together from its end: that of the other links is there first
      obtain ⟨spots, ledger, ha⟩ := ih (fun link hl => by
        have hle := hframe₃.segments.length_le
        have := hlinks link (List.mem_cons_of_mem _ hl)
        simp only [List.length_map, Array.length_toList] at hle
        omega) hs₃ hrest
      cases hstep with
      | tooDeep hc hd =>
          obtain rfl := deeper_eq_none hd
          exact ⟨spots, _, ha.consLeft rfl (by simp) rfl rfl rfl hc (by simp) (by simp)⟩
      | missing enter id st hc hd hnone ht =>
          obtain ⟨n, rfl, -⟩ := deeper_eq_some hd
          exact ⟨spots, _, ha.consLeft rfl (by simp) rfl rfl rfl hc (by simp)
            fun _ => hm _ _ _ _ hs.backend ht⟩
      | entered enter t a₁ child a₂ hc hd ho hn =>
          obtain ⟨n, rfl, rfl⟩ := deeper_eq_some hd
          have hfound := ho.sound hf hs
          have hs₁ := (respected_sound hf).obtained ho hs
          obtain ⟨rfl, layout, inner, innerLedger, hl, a₂', rfl, hinner⟩ := hsplice n rfl hs₁ hn
          exact ⟨_, _, Account.consEntered hc (hid _ _ hfound) hfound ho hl hlinks hinner
            ((respected_frame l).splice n hn) ((respected_frame l).links hrest) ha⟩

include hf hid hm in
/-- A trace that is entered has an account. -/
theorem splice_account :
    ∀ (levels : Nat) {t : Trace} {designated : Option String} {a a' : Assembly σ} {root : Nat},
      Sound R found a → splice l options levels t designated a = (.ok root, a') →
      root = a.nodes.size ∧ ∃ layout spots ledger,
        Entering options found missing levels t designated a a' layout spots ledger := by
  refine levels_induction fun levels ih => ?_
  intro t designated a a' root hs h
  rw [splice_eq] at h
  obtain ⟨layout, a₁, hl, hall, rfl, rfl⟩ := enter_ok h
  have hlinks : ∀ link ∈ linksOn options a.nodes.size layout,
      link.1 < (a.placed t.id layout).nodes.size := fun link hlink => by
    rw [size_placed]
    exact (holder_lt_of_mem_linksOn hlink).2
  obtain ⟨spots, ledger, ha⟩ := followAll_account hf hid hm ih hlinks
    ⟨hs.backend, hs.childTraces⟩ hall
  exact ⟨rfl, layout, spots, ledger, hl, a₁, rfl, ha⟩

end

end CausalTrace.Assembly
