import CausalTrace.Proofs.Assembly.Determinacy
import CausalTrace.Proofs.Assembly.Links

/-!
# Trees are what they should be

When questions about traces are always answered in the same way, a tree that is built unfolds to the
tree that the answers denote; one is built whenever they denote one; and when none is built, the
failure is one that is met on the way.

## Main definitions

* `Assembly.Spot.place` — the place in the tree that a node stands for
* `Tree.Unfolds` — the forest that a tree stands for

## Main statements

* `Assembly.Journal.denotes` — what a tree with a journal unfolds to is the tree of its header
* `Assembly.splice_blocked` — what stops an assembly
* `Tree.refines_reference`

## Design notes

A tree that is built is compared with what it should be node by node, with the help of its journal:
each node has a place, and what is below the node has the places that the place shows.  For a tree
that is not built there is no journal.  The failure is traced back instead, from the link that could
not be followed to the root of the trace that holds it, and on to the link that led to that trace.

The order in which links are followed is not that in which a tree is read, so that a failure is not
always the first one that would be met by a reader.
-/

namespace CausalTrace

/-! ### Trees that are built -/

namespace Assembly

open Reference

/-- The place in the tree of a header that a node stands for. -/
def Spot.place (header : Header) (p : Spot) : Place :=
  ⟨p.trace, designatedFor header p.chain, p.depth, p.chain, p.segment⟩

/-- A node has a spot, and stands for the place of the spot. -/
def StandsFor (header : Header) (spots : List Spot) (i : Nat) (q : Place) : Prop :=
  ∃ p, spots[i]? = some p ∧ p.place header = q

namespace Journal

variable {answers : TraceId → Except Failure Trace} {options : Options} {header : Header} {t : Tree}
  {spots : List Spot} {ledger : List Followed}

section

variable {found : TraceId → Trace → Prop} {missing : TraceId → Prop}

/-- Below a node of a tree, in its own trace, are nodes for what hangs below it. -/
theorem standsFor_below (h : Journal options found missing header t spots ledger) {i : Nat}
    {p : Spot} (hp : spots[i]? = some p) :
    ∃ below, Hanging p.trace (designatedFor header p.chain) p.segment below ∧
      List.Forall₂ (StandsFor header spots) p.below
        (below.map fun c => { p.place header with segment := c }) := by
  obtain ⟨k, -, hk, hbelow⟩ := h.place_eq hp
  have hlaid := (h.rooted p (List.mem_of_getElem? hp)).laid
  have hcounted := Layout.mem_counted_of_mem_placed hlaid (List.mem_of_getElem? hk)
  refine ⟨_, (hanging_iff hlaid hcounted).mpr rfl, ?_⟩
  have hsegments : List.Forall₂ (fun j c => p.layout.placed[j]? = some c)
      (Layout.below p.layout.hung k) (Layout.looseBelow p.layout.attached p.segment.id) := by
    rw [← List.forall₂_map_left_iff (R := fun o c => o = some c) (f := (p.layout.placed[·]?)),
      ← List.forall₂_map_right_iff (R := Eq) (f := some), Layout.segments_below hlaid hk,
      List.forall₂_eq_eq_eq]
  rw [hbelow, List.forall₂_map_left_iff, List.forall₂_map_right_iff]
  refine hsegments.imp fun j c hj => ?_
  exact ⟨_, h.same_trace hp hj, rfl⟩

end

variable (h : Journal options (fun id u => answers id = .ok u)
  (fun target => ∃ id, answers target = .error (.traceNotFound id)) header t spots ledger)

include h in
/-- The link of an entry leads to the root of the trace that was entered, or nowhere if none was. -/
theorem leads_entry {f : Followed} (hf : f ∈ ledger) {p : Spot} (hp : spots[f.holder]? = some p) :
    ∃ entered, Leads answers options (p.place header) f.target (.ok entered) ∧
      List.Forall₂ (StandsFor header spots) f.root?.toList entered := by
  have hrooted := h.rooted p (List.mem_of_getElem? hp)
  have hdepth := hrooted.depth_eq
  have hshort := hrooted.short
  cases h.settled f hf with
  | @left _ _ target reason p' hp' _ hc hreason hmissing =>
      obtain rfl := Option.some.inj (hp.symm.trans hp')
      refine ⟨[], ?_, .nil⟩
      -- the ledger tells the two reasons apart by the length of the chain, the reference by the
      -- depth
      cases reason with
      | depthLimit =>
          refine .tooDeep hc ?_
          show options.maxLinkDepth ≤ p.depth
          have := hreason.mp rfl
          omega
      | notFound =>
          obtain ⟨id, hid⟩ := hmissing rfl
          refine .missing hc ?_ hid
          show p.depth < options.maxLinkDepth
          have hne : p.chain.length ≠ options.maxLinkDepth + 1 := fun hlimit =>
            UnresolvedReason.noConfusion (hreason.mpr hlimit)
          omega
  | @entered _ root _ target p' q hp' _ hc hlevel hq hentry hchain hfound hsegment =>
      obtain rfl := Option.some.inj (hp.symm.trans hp')
      refine ⟨[q.place header], ?_, .cons ⟨q, hq, rfl⟩ .nil⟩
      have hrooted' := h.rooted q (List.mem_of_getElem? hq)
      have hdepth' := hrooted'.depth_eq
      have hlonger : q.chain.length = p.chain.length + 1 := by
        rw [hchain, List.length_append, List.length_singleton]
      -- only the root of the source trace may have a parent that the caller names
      have hnone : designatedFor header q.chain = none := if_neg (by omega)
      have hplace : q.place header
          = ⟨q.trace, none, p.depth + 1, p.chain ++ [target], q.segment⟩ := by
        rw [Spot.place, hnone, hchain, show q.depth = p.depth + 1 by omega]
      rw [hplace]
      refine .entered hc ?_ hfound.1
        (enters_ok_iff.mpr ⟨q.layout, hnone ▸ hrooted'.laid, hsegment.symm⟩)
      show p.depth < options.maxLinkDepth
      omega

include h in
/-- The links of the entries of a node lead to the roots among them. -/
theorem leads_entries {i : Nat} {p : Spot} (hp : spots[i]? = some p) :
    ∀ {entries : List Followed}, (∀ f ∈ entries, f ∈ ledger ∧ f.holder = i) →
      ∃ linked, List.Forall₂ (fun target entered =>
          Leads answers options (p.place header) target (.ok entered))
          (entries.map Followed.target) linked ∧
        List.Forall₂ (StandsFor header spots) (entries.filterMap Followed.root?)
          linked.flatten := by
  intro entries
  induction entries with
  | nil => exact fun _ => ⟨[], .nil, .nil⟩
  | cons f rest ih =>
      intro hentries
      obtain ⟨linked, hleads, hroots⟩ := ih fun g hg => hentries g (List.mem_cons_of_mem _ hg)
      obtain ⟨hf, rfl⟩ := hentries f List.mem_cons_self
      obtain ⟨entered, hlead, hroot⟩ := h.leads_entry hf hp
      refine ⟨entered :: linked, .cons hlead hleads, ?_⟩
      have hsplit : (f :: rest).filterMap Followed.root?
          = f.root?.toList ++ rest.filterMap Followed.root? := by
        rw [List.filterMap_cons]
        cases f.root? <;> rfl
      rw [hsplit, List.flatten_cons]
      exact List.rel_append hroot hroots

include h in
/-- A node has entries for the links that are followed from its segment. -/
theorem followed_at {i : Nat} {p : Spot} (hp : spots[i]? = some p) :
    (entriesAt ledger i).map Followed.target = followed options p.segment := by
  unfold followed
  rw [targets_eq]
  split
  · next hfetch => exact h.targets_at hfetch hp
  · next hfetch =>
      have hentries := h.entries i
      rw [linksAt, if_neg hfetch] at hentries
      rw [List.map_eq_nil_iff.mp hentries, List.map_nil]

include h in
/-- What is below a node stands for what its place shows. -/
theorem shows_children {i : Nat} {p : Spot} (hp : spots[i]? = some p) :
    ∃ places, Shows answers options (p.place header) p.segment places ∧
      List.Forall₂ (StandsFor header spots) (Arena.children t.nodes i) places := by
  obtain ⟨below, hhanging, hbelow⟩ := h.standsFor_below hp
  have hentries : ∀ f ∈ entriesAt ledger i, f ∈ ledger ∧ f.holder = i := by
    intro f hf
    simpa [entriesAt] using hf
  obtain ⟨linked, hleads, hroots⟩ := h.leads_entries hp hentries
  refine ⟨_, ⟨rfl, below, linked, hhanging, ?_, rfl⟩, ?_⟩
  · rw [h.followed_at hp] at hleads
    exact hleads
  · rw [h.children_eq hp]
    exact List.rel_append hbelow hroots

include h in
/-- What a tree unfolds to is the tree of its header. -/
theorem denotes {f : Forest} (hf : Grows t.nodes.Shows [0] f) :
    Denotes answers options header f := by
  obtain ⟨p, hp, -, hchain, -, hsegment⟩ := h.source
  have hrooted := h.rooted p (List.mem_of_getElem? hp)
  have hlast := hrooted.last
  have hlaid := hrooted.laid
  have hfound := hrooted.found
  rw [hchain] at hlast hlaid
  rw [← Option.some.inj hlast] at hfound
  have hstart : p.place header = Place.start header p.trace p.segment := by
    rw [Spot.place, Spot.depth, hchain]
    rfl
  have hgrows : Grows (Shows answers options) [p.place header] f := by
    refine hf.simulate (R := StandsFor header spots) ?_ (.cons ⟨p, hp, rfl⟩ .nil)
    rintro i q s below ⟨r, hr, rfl⟩ hshows
    obtain ⟨rfl, rfl⟩ := Arena.shows_unique _ _ _ _ _ _ hshows (h.node_eq hr)
    rw [← h.children_eq hr]
    exact h.shows_children hr
  exact ⟨p.trace, p.segment, hfound, enters_ok_iff.mpr ⟨p.layout, hlaid, hsegment.symm⟩,
    hstart ▸ hgrows⟩

end Journal

/-! ### Trees that are not built -/

section

variable {σ : Type} {l : Lookup σ} {R : σ → Prop} {answers : TraceId → Except Failure Trace}
  {options : Options}

/-- Steady look-ups find just what they always answer. -/
theorem finds_of_steady (hl : l.Steady R answers) : Finds l R fun id u => answers id = .ok u := by
  intro id s r s' hR ht
  obtain ⟨heq, hR'⟩ := hl.eq hR ht
  exact ⟨hR', fun u hu => heq.trans hu⟩

/-- Every segment placed for a trace is below its root. -/
theorem steps_placed {t : Trace} {designated : Option String} {layout : Layout} {depth : Nat}
    {chain : List TraceId} (hl : Layout.ofTrace t designated options.orphans = .ok layout) :
    ∀ s ∈ layout.placed,
      Relation.ReflTransGen (Steps answers options) ⟨t, designated, depth, chain, layout.root⟩
        ⟨t, designated, depth, chain, s⟩ := by
  refine Layout.placed_induction hl .refl fun u hu hreach s hs => ?_
  have hcounted := Layout.mem_counted_of_mem_placed hl hu
  exact hreach.tail (.hangs ((hanging_iff hl hcounted).mpr rfl) hs)

/-- What stops an assembly while a trace is being entered: the trace has no root, or from its root
one comes to a link that leads to the failure. -/
theorem splice_blocked (hl : l.Steady R answers) :
    ∀ (levels : Nat) {t : Trace} {designated : Option String} {a a' : Assembly σ} {e : Failure},
      Sound R (fun id u => answers id = .ok u) a → a.chain.length + levels = options.maxLinkDepth →
      splice l options levels t designated a = (.error e, a') →
      Enters options.orphans t designated (.error e) ∨
        ∃ root, Enters options.orphans t designated (.ok root) ∧
          Blocked answers options ⟨t, designated, a.chain.length, a.chain ++ [t.id], root⟩ e := by
  refine levels_induction fun levels ih => ?_
  intro t designated a a' e hs hdepth h
  rw [splice_eq] at h
  rcases enter_error h with ⟨hlayout, -⟩ | ⟨layout, a₁, hlayout, hall, -⟩
  · exact .inl (enters_error_iff.mpr hlayout)
  · have hfinds := finds_of_steady hl
    obtain ⟨link, hlink, a₂, ⟨hframe, hsound⟩, hstep⟩ :=
      ((respected_frame l).and (respected_sound hfinds)).failing_link hall
    have hs₂ := hsound ⟨hs.backend, hs.childTraces⟩
    have hchain : a₂.chain = a.chain ++ [t.id] := hframe.chain
    have hfetch := fetch_of_mem_linksOn hlink
    obtain ⟨k, s, target, hk, htarget, rfl⟩ := mem_linksOn hlink
    refine .inr ⟨layout.root, enters_ok_iff.mpr ⟨layout, hlayout, rfl⟩, ?_⟩
    -- the link is on a segment that was placed for the trace, and so is below its root
    have hreach : Relation.ReflTransGen (Steps answers options)
        ⟨t, designated, a.chain.length, a.chain ++ [t.id], layout.root⟩
        ⟨t, designated, a.chain.length, a.chain ++ [t.id], s⟩ :=
      steps_placed hlayout s (List.mem_of_getElem? hk)
    have hfollowed : target ∈ followed options s := by
      rw [followed, if_pos hfetch, targets_eq]
      exact htarget
    cases hstep with
    | cycle hmem =>
        rw [hchain] at hmem ⊢
        exact ⟨_, target, hreach, hfollowed, .cycle hmem⟩
    | lookupFails enter e st hc hd hnone ht he =>
        obtain ⟨n, rfl, -⟩ := deeper_eq_some hd
        have hlevel : a.chain.length < options.maxLinkDepth := by omega
        exact ⟨_, target, hreach, hfollowed,
          .unanswered (hchain ▸ hc) hlevel (hl.eq hs₂.backend ht).1 he⟩
    | enterFails enter u a₃ e a₄ hc hd ho hn =>
        obtain ⟨n, rfl, rfl⟩ := deeper_eq_some hd
        have hlevel : a.chain.length < options.maxLinkDepth := by omega
        have hu := ho.sound hfinds hs₂
        have hid := hl.keyed hs.backend hu
        have hchain₃ : a₃.chain = a.chain ++ [t.id] := ho.same.1.trans hchain
        have hdepth₃ : a₃.chain.length + n = options.maxLinkDepth := by
          rw [hchain₃, List.length_append, List.length_singleton]
          omega
        rcases ih n rfl ((respected_sound hfinds).obtained ho hs₂) hdepth₃ hn with
          hrefused | ⟨root, hroot, q, next, hreach', hnext, hfails⟩
        · exact ⟨_, target, hreach, hfollowed, .refused (hchain ▸ hc) hlevel hu hrefused⟩
        · rw [hchain₃, hid, List.length_append, List.length_singleton] at hreach'
          refine ⟨q, next, (hreach.tail (.leads hfollowed ?_)).trans hreach', hnext, hfails⟩
          exact .entered (hchain ▸ hc) hlevel hu hroot

/-- What stops the assembly of a tree is met on the way to the tree of the header. -/
theorem meets_of_assemble (hl : l.Steady R answers) {header : Header} {s s' : σ} {e : Failure}
    (hs : R s) (h : Tree.assemble l header options s = (.error e, s')) :
    Meets answers options header e := by
  rcases assemble_eq_error.mp h with hsource | ⟨source, s₁, a, hsource, hsplice, -⟩
  · exact .unanswered (hl.eq hs hsource).1
  · obtain ⟨hfound, hs₁⟩ := hl.eq hs hsource
    have hsound : Sound R (fun id u => answers id = .ok u) (start s₁) :=
      ⟨hs₁, by intro id u hu; cases hu⟩
    rcases splice_blocked hl options.maxLinkDepth hsound (Nat.zero_add _) hsplice with
      hrefused | ⟨root, hroot, hblocked⟩
    · exact .refused hfound hrefused
    · refine .blocked hfound hroot ?_
      rw [hl.keyed hs hfound] at hblocked
      exact hblocked

end

end Assembly

/-! ### Trees -/

/-- A tree stands for a forest: its arena unfolds to the forest, and its paths are those of the
forest. -/
structure Tree.Unfolds (t : Tree) (f : Forest) : Prop where
  nodes : Grows t.nodes.Shows [t.root] f
  paths : t.segmentPaths = f.paths

namespace Assembly

variable {σ : Type} {l : Lookup σ} {R : σ → Prop} {answers : TraceId → Except Failure Trace}
  {options : Options}

open Reference

/-- A tree that is assembled stands for the tree of its header. -/
theorem denotes_of_assemble (hl : l.Steady R answers) {header : Header} {s s' : σ} {t : Tree}
    (hs : R s) (h : Tree.assemble l header options s = (.ok t, s')) :
    ∃ f, t.Unfolds f ∧ Denotes answers options header f ∧
      t.openLeaf? = f.leaves.find? Segment.isOpen := by
  have hmissing : ∀ target s id s', R s → l.trace target s = (.error (.traceNotFound id), s') →
      ∃ i, answers target = .error (.traceNotFound i) :=
    fun target s id s' hR ht => ⟨id, (hl.eq hR ht).1⟩
  obtain ⟨spots, ledger, hj⟩ := assemble_journal (finds_of_steady hl)
    (fun id u hu => hl.keyed hs hu) hmissing hs h
  obtain ⟨f, hf, hpaths⟩ := hj.isTree.exists_unfolding
  refine ⟨f, ⟨hj.root ▸ hf, ?_⟩, hj.denotes hf, ?_⟩
  · rw [hpaths, Tree.segmentPaths, hj.paths]
    rfl
  · rw [Tree.openLeaf?, Forest.leaves, hpaths, List.filterMap_map, hj.paths]
    refine congrArg _ (List.filterMap_congr fun path hpath => ?_)
    exact (hj.isTree.getLast?_segments hpath).symm

/-- A tree that is built stands for what its header yields. -/
theorem yields_of_build (hl : l.Steady R answers) {header : Header} {s s' : σ} {t : Tree} (hs : R s)
    (h : Tree.build l header options s = (.ok t, s')) :
    ∃ f, t.Unfolds f ∧ Yields answers options header f := by
  obtain ⟨hassemble, hleaf⟩ := build_eq_ok.mp h
  obtain ⟨f, hunfolds, hdenotes, hopen⟩ := denotes_of_assemble hl hs hassemble
  refine ⟨f, hunfolds, hdenotes, hleaf.imp_right fun hnone leaf hmem => ?_⟩
  rw [hopen] at hnone
  exact Bool.eq_false_iff.mpr (List.find?_eq_none.mp hnone leaf hmem)

/-- What a build fails with is what its header fails with. -/
theorem fails_of_build (hl : l.Steady R answers) {header : Header} {s s' : σ} {e : Failure}
    (hs : R s) (h : Tree.build l header options s = (.error e, s')) :
    Fails answers options header e := by
  rcases build_eq_error.mp h with h | ⟨t, leaf, hassemble, hallow, hleaf, rfl⟩
  · exact .met (meets_of_assemble hl hs h)
  · obtain ⟨f, -, hdenotes, hopen⟩ := denotes_of_assemble hl hs hassemble
    exact .leafOpen hallow hdenotes (hopen.symm.trans hleaf)

end Assembly

open Reference in
/-- From a store that neither fails nor defers, a tree is built for a header exactly if the header
yields one; the tree unfolds to it, and has its paths.  If none is built, the failure is one that
the header fails with. -/
theorem Tree.refines_reference {s : Store} (hs : s.Frozen) (n : Nat) (header : Header)
    (options : Options) :
    (∀ t s', Tree.build ⟨Store.backend, n + 1⟩ header options s = (.ok t, s') →
      ∃ f, t.Unfolds f ∧ Yields s.answerTo options header f) ∧
    (∀ f, Yields s.answerTo options header f → ∃ t s',
      Tree.build ⟨Store.backend, n + 1⟩ header options s = (.ok t, s') ∧ t.Unfolds f) ∧
    ∀ e s', Tree.build ⟨Store.backend, n + 1⟩ header options s = (.error e, s') →
      Fails s.answerTo options header e := by
  have hsteady := hs.steady_serves n
  refine ⟨fun t s' h => ?_, fun f hf => ?_, fun e s' h => ?_⟩
  · exact Assembly.yields_of_build hsteady (Store.Serves.refl s) h
  -- a build always ends, and a header that yields a tree does not fail
  · rcases hbuild : Tree.build ⟨Store.backend, n + 1⟩ header options s with ⟨e | t, s'⟩
    · exact absurd hf (Assembly.fails_of_build hsteady (Store.Serves.refl s) hbuild).not_yields
    · obtain ⟨g, hunfolds, hg⟩ := Assembly.yields_of_build hsteady (Store.Serves.refl s) hbuild
      obtain rfl := hf.1.unique hg.1
      exact ⟨t, s', rfl, hunfolds⟩
  · exact Assembly.fails_of_build hsteady (Store.Serves.refl s) h

/-! ### A run compared -/

namespace Store.Sample

/-- The tree of the first trace: its root, and below it a segment of the same trace and the root
of the second. -/
def forest : Forest := .cons segmentA (.cons segmentB .nil (.cons segmentC .nil .nil)) .nil

/-- The tree of the first trace stands for the forest. -/
theorem unfolds_tree : tree.Unfolds forest where
  nodes := .cons rfl (.cons rfl .nil (.cons rfl .nil .nil)) .nil
  paths := rfl

end Store.Sample

open Store.Sample in
/-- A tree and the forest that it unfolds to, and a header that fails. -/
theorem Tree.refines_sample :
    store.Frozen ∧
      Tree.build ⟨Store.backend, 10⟩ (Header.ofRoot ⟨"1-a"⟩) options store
        = (.ok tree, after [[⟨"1-a"⟩], [⟨"1-b"⟩], [⟨"1-x"⟩]]) ∧
      tree.Unfolds forest ∧
      Reference.Yields store.answerTo options (Header.ofRoot ⟨"1-a"⟩) forest ∧
      (∃ t s', Tree.build ⟨Store.backend, 10⟩ (Header.ofRoot ⟨"1-a"⟩) options store = (.ok t, s') ∧
        t.Unfolds forest) ∧
      Tree.build ⟨Store.backend, 10⟩ (Header.ofRoot ⟨"1-x"⟩) options store
        = (.error (.traceNotFound ⟨"1-x"⟩), after [[⟨"1-x"⟩]]) ∧
      Reference.Fails store.answerTo options (Header.ofRoot ⟨"1-x"⟩) (.traceNotFound ⟨"1-x"⟩) := by
  obtain ⟨hbuilt, hyielded, -⟩ :=
    Tree.refines_reference frozen_store 9 (Header.ofRoot ⟨"1-a"⟩) options
  obtain ⟨f, hf, hyields⟩ := hbuilt _ _ build_store
  obtain rfl := hf.nodes.unique (Arena.shows_unique _) unfolds_tree.nodes
  exact ⟨frozen_store, build_store, unfolds_tree, hyields, hyielded forest hyields, build_missing,
    (Tree.refines_reference frozen_store 9 _ _).2.2 _ _ build_missing⟩

end CausalTrace
