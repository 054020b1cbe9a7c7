import CausalTrace.Proofs.Assembly.Links

/-!
# Cycles of links

Links may lead round in a circle, or on and on.  A trace that is being entered is never entered
again inside itself, and no more traces are entered inside each other than one for the source and
one for each level.  When a link leads back, the failure names a real cycle: the traces of its
chain have segments in the arena that link from each one to the next, and from the last one back
into the chain.

## Main definitions

* `Assembly.nested` — the recursion with its depth counted up, cut off at some depth
* `Assembly.Carries`, `Assembly.Linked` — traces that link to each other
* `Assembly.ClosesOn` — a chain that goes on from the traces being entered, and closes
* `Assembly.enteredOn` — the traces entered along a path
* `Tree.CycleMet` — what a failure that names a cycle says

## Main statements

* `Assembly.nested_eq_splice` — the recursion never comes to where it is cut off
* `Assembly.splice_cycle` — the chain of a cycle
* `Tree.cycles_of_build` — cycles are real, and paths have none

## Design notes

The traces being entered are not part of an assembly, only their ids are.  They are carried along
beside it, as the list `traces`, with the invariant `Linked`.  An assembly at the end of a run knows
more than at the start, never less (`Frame`), so that what was linked stays so.
-/

namespace CausalTrace

namespace Assembly

variable {σ : Type} {l : Lookup σ} {options : Options}

/-! ### The depth of the recursion -/

/-- Entering a trace at a depth, with the depth counted up and compared with the limit at every
level.  After a number of calls inside each other, something else is done. -/
def nested (l : Lookup σ) (options : Options)
    (beyond : Trace → Option String → Action (Assembly σ) Nat) :
    Nat → Nat → Trace → Option String → Action (Assembly σ) Nat
  | 0, _, t, designated => beyond t designated
  | calls + 1, depth, t, designated =>
    enter l options
      (if depth < options.maxLinkDepth then
        some fun child => nested l options beyond calls (depth + 1) child none
      else none)
      t designated

/-- One call for each level and one more are enough, whatever is done after them. -/
theorem nested_eq_splice (beyond : Trace → Option String → Action (Assembly σ) Nat) :
    ∀ (levels : Nat) {depth calls : Nat}, depth + levels = options.maxLinkDepth → levels < calls →
      nested l options beyond calls depth = splice l options levels := by
  intro levels
  induction levels with
  | zero =>
      intro depth calls hdepth hcalls
      obtain ⟨c, rfl⟩ := Nat.exists_eq_add_of_lt hcalls
      funext t designated
      rw [show 0 + c + 1 = c + 1 by omega, nested, if_neg (by omega), splice]
  | succ n ih =>
      intro depth calls hdepth hcalls
      obtain ⟨c, rfl⟩ : ∃ c, calls = c + 1 := ⟨calls - 1, by omega⟩
      funext t designated
      rw [nested, if_pos (by omega), splice, ih (by omega) (by omega)]

/-! ### Traces that link to each other -/

/-- A trace has a segment at a node that links to a child trace. -/
def Carries (a : Assembly σ) (t : Trace) (next : TraceId) : Prop :=
  ∃ s ∈ a.nodes.toList.map Node.segment, s ∈ t.segments ∧ s.LinksTo next

/-- Different traces, each of which links to the next.  Those behind the first are remembered. -/
structure Linked (a : Assembly σ) (traces : List Trace) : Prop where
  links : traces.IsChain fun t u => a.Carries t u.id
  distinct : (traces.map Trace.id).Nodup
  remembered : ∀ t ∈ traces.tail, a.childTraces.get? t.id = some t

theorem Carries.mono {a a' : Assembly σ} {t : Trace} {next : TraceId}
    (hsegments : a.nodes.toList.map Node.segment <+: a'.nodes.toList.map Node.segment)
    (h : a.Carries t next) : a'.Carries t next := by
  obtain ⟨s, hs, ht, hlink⟩ := h
  exact ⟨s, hsegments.subset hs, ht, hlink⟩

/-- Linked traces stay so when more nodes are there and more traces are remembered. -/
theorem Linked.mono {a a' : Assembly σ} {traces : List Trace}
    (hsegments : a.nodes.toList.map Node.segment <+: a'.nodes.toList.map Node.segment)
    (htable : ∀ id t, a.childTraces.get? id = some t → a'.childTraces.get? id = some t)
    (h : a.Linked traces) : a'.Linked traces where
  links := h.links.imp fun _ _ hc => hc.mono hsegments
  distinct := h.distinct
  remembered t ht := htable _ _ (h.remembered t ht)

/-- One trace more, when the last one links to it. -/
theorem Linked.concat {a : Assembly σ} {traces : List Trace} {last t : Trace}
    (h : a.Linked traces) (hlast : traces.getLast? = some last) (hcarries : a.Carries last t.id)
    (hnew : t.id ∉ traces.map Trace.id) (htable : a.childTraces.get? t.id = some t) :
    a.Linked (traces ++ [t]) where
  links := by
    rw [List.isChain_append]
    refine ⟨h.links, List.isChain_singleton _, ?_⟩
    intro u hu v hv
    obtain rfl := Option.some.inj (hlast.symm.trans hu)
    obtain rfl := Option.some.inj hv
    exact hcarries
  distinct := by
    rw [List.map_append, List.map_singleton, ← List.concat_eq_append, List.nodup_concat]
    exact ⟨hnew, h.distinct⟩
  remembered u hu := by
    have hne : traces ≠ [] := by
      rintro rfl
      cases hlast
    rw [List.tail_append_of_ne_nil hne, List.mem_append, List.mem_singleton] at hu
    rcases hu with hu | rfl
    · exact h.remembered u hu
    · exact htable

/-! ### Runs that end with a cycle -/

/-- A chain of traces that link to each other goes on from the traces that were being entered, by as
many as there are levels at most, and the last one links back into it. -/
structure ClosesOn (a : Assembly σ) (traces : List Trace) (levels : Nat) (target : TraceId)
    (chain : List TraceId) (all : List Trace) : Prop where
  goesOn : traces <+: all
  short : all.length ≤ traces.length + levels
  ids : all.map Trace.id = chain
  linked : a.Linked all
  back : target ∈ chain
  last : ∃ t, all.getLast? = some t ∧ a.Carries t target

/-- The segments placed for a trace carry the links that are followed on it. -/
theorem carries_placed {t : Trace} {designated : Option String} {layout : Layout} {a : Assembly σ}
    (hl : Layout.ofTrace t designated options.orphans = .ok layout)
    {link : Nat × Segment × TraceId} (h : link ∈ linksOn options a.nodes.size layout) :
    (a.placed t.id layout).Carries t link.2.2 := by
  obtain ⟨k, s, target, hk, htarget, rfl⟩ := mem_linksOn h
  have hs : s ∈ layout.placed := List.mem_of_getElem? hk
  refine ⟨s, ?_, Layout.mem_segments_of_mem_placed hl hs, mem_targets.mp htarget⟩
  have hnodes : (layout.nodes a.nodes.size).map Node.segment = layout.placed := by
    unfold Layout.nodes
    rw [List.map_map]
    exact List.zipIdx_map_fst 0 layout.placed
  unfold placed
  rw [Array.toList_append, List.map_append, List.toList_toArray, hnodes]
  exact List.mem_append_right _ hs

/-- When entering a trace ends with a cycle, its chain goes on from the traces being entered and
that trace, and closes. -/
theorem splice_cycle :
    ∀ (levels : Nat) {t : Trace} {designated : Option String} {a a' : Assembly σ}
      {target : TraceId} {chain : List TraceId} {traces : List Trace},
      Sound (fun _ => True) (fun id t => t.id = id ∧ t.segments ≠ []) a →
      traces.map Trace.id = a.chain → a.Linked (traces ++ [t]) →
      splice l options levels t designated a = (.error (.linkCycle target chain), a') →
      ∃ all, a'.ClosesOn (traces ++ [t]) levels target chain all := by
  refine levels_induction fun levels ih => ?_
  intro t designated a a' target chain traces hs hids hlinked h
  rw [splice_eq] at h
  rcases enter_error h with ⟨hl, -⟩ | ⟨layout, a₁, hl, hall, rfl⟩
  · rcases Layout.ofTrace_error hl with he | ⟨s, p, he⟩ | ⟨s, p, he⟩ <;> cases he
  · have hsegments : a.nodes.toList.map Node.segment
        <+: (a.placed t.id layout).nodes.toList.map Node.segment := by
      simp [placed]
    -- everything that is known of the traces being entered is still known when the link is met
    obtain ⟨link, hlink, a₂, ⟨hframe, hsound⟩, hstep⟩ :=
      ((respected_frame l).and (respected_sound (finds_keyed l))).failing_link hall
    have hchain : (traces ++ [t]).map Trace.id = a₂.chain := by
      rw [hframe.chain, List.map_append, hids]
      rfl
    have hlinked₂ : a₂.Linked (traces ++ [t]) :=
      hlinked.mono (hsegments.trans hframe.segments) hframe.childTraces
    have hs₂ := hsound ⟨hs.backend, hs.childTraces⟩
    have hnext : a₂.Carries t link.2.2 := (carries_placed hl hlink).mono hframe.segments
    cases hstep with
    | cycle hmem =>
        exact ⟨traces ++ [t], List.prefix_refl _, Nat.le_add_right _ _, hchain,
          ⟨hlinked₂.links, hlinked₂.distinct, hlinked₂.remembered⟩, hmem, t, List.getLast?_concat,
          hnext⟩
    | lookupFails enter _ st hc hd hnone ht he =>
        rcases Lookup.trace_error ht with hid | ⟨cause, hid⟩ | ⟨id, cause, hid⟩ <;> cases hid
    | enterFails enter u a₃ _ _ hc hd ho hn =>
        obtain ⟨n, rfl, rfl⟩ := deeper_eq_some hd
        have hid := (ho.sound (finds_keyed l) hs₂).1
        have hframe₃ := (respected_frame l).obtained ho
        have hlinked₃ : a₃.Linked (traces ++ [t] ++ [u]) := by
          refine (hlinked₂.mono hframe₃.segments hframe₃.childTraces).concat List.getLast?_concat
            ?_ ?_ ?_
          · exact hid ▸ hnext.mono hframe₃.segments
          · rw [hchain, hid]
            exact hc
          · exact hid ▸ ho.remembered
        obtain ⟨all, hall⟩ := ih n rfl ((respected_sound (finds_keyed l)).obtained ho hs₂)
          (hchain.trans hframe₃.chain.symm) hlinked₃ hn
        have hshort := hall.short
        rw [List.length_append, List.length_singleton] at hshort
        exact ⟨all, (List.prefix_append _ _).trans hall.goesOn, by omega, hall.ids,
          ⟨hall.linked.links, hall.linked.distinct, hall.linked.remembered⟩, hall.back, hall.last⟩

/-! ### Traces entered along a path -/

/-- The traces whose roots are on a path, in order. -/
def enteredOn (spots : List Spot) (path : List Nat) : List TraceId :=
  path.filterMap fun i => spots[i]?.bind fun p => if p.entry = i then some p.trace.id else none

/-- One node more on a path enters a trace when it is the root of one. -/
theorem enteredOn_concat {spots : List Spot} {path : List Nat} {i : Nat} {p : Spot}
    (hp : spots[i]? = some p) :
    enteredOn spots (path ++ [i])
      = enteredOn spots path ++ (if p.entry = i then [p.trace.id] else []) := by
  unfold enteredOn
  rw [List.filterMap_append]
  by_cases h : p.entry = i <;> simp [hp, h]

/-- Along a route from the root, those traces are entered that its last node has in its chain. -/
theorem Journal.enteredOn_route {found : TraceId → Trace → Prop} {missing : TraceId → Prop}
    {header : Header} {t : Tree} {spots : List Spot} {ledger : List Followed}
    (h : Journal options found missing header t spots ledger) (route : List Nat) :
    ∀ {j : Nat}, Arena.IsRoute t.nodes 0 j route →
      ∃ p, spots[j]? = some p ∧ enteredOn spots route = p.chain := by
  induction route using List.reverseRecOn with
  | nil =>
      intro j hroute
      exact absurd rfl hroute.ne_nil
  | append_singleton front k ih =>
      intro j hroute
      obtain ⟨rfl, ⟨rfl, rfl⟩ | ⟨i, hfront, hchild⟩⟩ := Arena.isRoute_concat.mp hroute
      · obtain ⟨p, hp, hentry, hchain, -⟩ := h.source
        have hlast := (h.rooted p (List.mem_of_getElem? hp)).last
        rw [hchain] at hlast
        obtain hid := Option.some.inj hlast
        refine ⟨p, hp, ?_⟩
        rw [enteredOn_concat hp, if_pos hentry, hchain, ← hid]
        rfl
      · obtain ⟨p, hp, hentered⟩ := ih hfront
        rw [h.children_eq hp, List.mem_append] at hchild
        -- a step inside a trace enters none, and a step to a root enters the trace of its link
        rcases hchild with hbelow | hrooted
        · obtain ⟨-, q, hq, -, hchain, -, -, hne⟩ := h.spot_of_below hp hbelow
          refine ⟨q, hq, ?_⟩
          rw [enteredOn_concat hq, if_neg hne.symm, hentered, List.append_nil, hchain]
        · obtain ⟨-, f, -, -, -, -, q, hq, hentry, hchain, -⟩ := h.spot_of_root hp hrooted
          have hlast := (h.rooted q (List.mem_of_getElem? hq)).last
          rw [hchain, List.getLast?_concat] at hlast
          refine ⟨q, hq, ?_⟩
          rw [enteredOn_concat hq, if_pos hentry, hentered, hchain, Option.some.inj hlast]

/-- Along each path different traces are entered, no more than one for each level and one. -/
theorem Journal.enteredOn_path {found : TraceId → Trace → Prop} {missing : TraceId → Prop}
    {header : Header} {t : Tree} {spots : List Spot} {ledger : List Followed}
    (h : Journal options found missing header t spots ledger) {path : List Nat}
    (hpath : path ∈ t.paths) :
    (enteredOn spots path).Nodup ∧ (enteredOn spots path).length ≤ options.maxLinkDepth + 1 := by
  rw [h.paths] at hpath
  obtain ⟨j, hroute, -⟩ := h.isTree.mem_paths.mp hpath
  obtain ⟨p, hp, hentered⟩ := h.enteredOn_route path hroute
  have hrooted := h.rooted p (List.mem_of_getElem? hp)
  rw [hentered]
  exact ⟨hrooted.distinct, hrooted.short⟩

/-! ### Trees that are not built -/

/-- A cycle is met while the source trace, or one below it, is being entered. -/
theorem splice_of_linkCycle {header : Header} {s s' : σ} {target : TraceId} {chain : List TraceId}
    (h : Tree.build l header options s = (.error (.linkCycle target chain), s')) :
    ∃ source s₁ a, l.trace header.root s = (.ok source, s₁) ∧
      splice l options options.maxLinkDepth source header.parent (.start s₁)
        = (.error (.linkCycle target chain), a) ∧
      s' = a.backend := by
  rcases build_eq_error.mp h with h | ⟨t, leaf, -, -, -, hleaf⟩
  · rcases assemble_eq_error.mp h with hsource | hsplice
    · rcases Lookup.trace_error hsource with he | ⟨cause, he⟩ | ⟨i, cause, he⟩ <;> cases he
    · exact hsplice
  · cases hleaf

end Assembly

open Assembly in
/-- A failure that names a cycle is right about it: the traces of its chain were entered inside each
other, from the source trace on, and when the run ended each had a segment at a node with a child
link to the next one, and the last one back into the chain. -/
structure Tree.CycleMet {σ : Type} (l : Lookup σ) (header : Header) (options : Options) (s s' : σ)
    (target : TraceId) (chain : List TraceId) : Prop where
  starts : chain.head? = some header.root
  distinct : chain.Nodup
  short : chain.length ≤ options.maxLinkDepth + 1
  back : target ∈ chain
  fetched : ∃ source s₁ a, l.trace header.root s = (.ok source, s₁) ∧
    splice l options options.maxLinkDepth source header.parent (.start s₁)
      = (.error (.linkCycle target chain), a) ∧
    s' = a.backend ∧
    ∃ traces : List Trace, traces.map Trace.id = chain ∧ traces.head? = some source ∧
      (∀ t ∈ traces.tail, a.childTraces.get? t.id = some t) ∧
      traces.IsChain (fun t u => a.Carries t u.id) ∧
      ∃ last, traces.getLast? = some last ∧ a.Carries last target

namespace Assembly

variable {σ : Type} {l : Lookup σ} {options : Options}

/-- When no tree is built because of a cycle, the cycle that is named has been met. -/
theorem cycleMet_of_build {header : Header} {s s' : σ} {target : TraceId} {chain : List TraceId}
    (h : Tree.build l header options s = (.error (.linkCycle target chain), s')) :
    Tree.CycleMet l header options s s' target chain := by
  obtain ⟨source, s₁, a, hsource, hsplice, hs⟩ := splice_of_linkCycle h
  have hsound : Sound (fun _ => True) (fun id t => t.id = id ∧ t.segments ≠ []) (start s₁) :=
    ⟨trivial, by intro id u hu; cases hu⟩
  have hlinked : (start s₁).Linked ([] ++ [source]) :=
    ⟨List.isChain_singleton _, List.nodup_singleton _, by simp⟩
  obtain ⟨traces, hclose⟩ := splice_cycle options.maxLinkDepth hsound rfl hlinked hsplice
  -- the chain goes on from the source trace alone
  obtain ⟨more, rfl⟩ : ∃ more, [source] ++ more = traces := hclose.goesOn
  have hids := hclose.ids
  have hshort := hclose.short
  rw [List.nil_append, List.length_singleton] at hshort
  refine ⟨?_, hids ▸ hclose.linked.distinct, ?_, hclose.back, source, s₁, a, hsource, hsplice, hs,
    _, hids, rfl, hclose.linked.remembered, hclose.linked.links, hclose.last⟩
  · rw [← hids, ← (Lookup.trace_ok hsource).1]
    rfl
  · rw [← hids, List.length_map]
    omega

end Assembly

/-! ### Trees -/

open Assembly in
/-- The recursion over links never goes deeper than the levels that may be followed.  When a tree is
not built because of a cycle, there is one; and along each path of a tree that is built, different
traces are entered. -/
theorem Tree.cycles_of_build {σ : Type} (l : Lookup σ) (header : Header) (options : Options)
    (s s' : σ) :
    (∀ beyond, nested l options beyond (options.maxLinkDepth + 1) 0
      = splice l options options.maxLinkDepth) ∧
    (∀ target chain, Tree.build l header options s = (.error (.linkCycle target chain), s') →
      Tree.CycleMet l header options s s' target chain) ∧
    ∀ t, Tree.build l header options s = (.ok t, s') →
      ∃ spots ledger, t.Charted header options spots ledger ∧
        ∀ path ∈ t.paths, (enteredOn spots path).Nodup ∧
          (enteredOn spots path).length ≤ options.maxLinkDepth + 1 := by
  refine ⟨fun beyond => ?_, fun target chain h => cycleMet_of_build h, fun t h => ?_⟩
  · exact nested_eq_splice beyond _ (Nat.zero_add _) (Nat.lt_succ_self _)
  · obtain ⟨hassemble, -⟩ := build_eq_ok.mp h
    obtain ⟨spots, ledger, hj⟩ := assemble_journal (finds_keyed l)
      (fun _ _ hf => hf.1) (fun _ _ _ _ _ _ => trivial) trivial hassemble
    exact ⟨spots, ledger, hj.charted, fun path hpath => hj.enteredOn_path hpath⟩

/-! ### A run that ends with a cycle -/

namespace Store.Sample

open Assembly

def segmentD : Segment := segment "1-d" "d" none "1-g"

def segmentG : Segment := segment "1-g" "g" none "1-d"

/-- The layout of the third trace. -/
def layoutD : Layout := ⟨segmentD, []⟩

/-- The layout of the fourth trace. -/
def layoutG : Layout := ⟨segmentG, []⟩

/-- The assembly when the fourth trace has been found. -/
def turning (s : Store) : Assembly Store :=
  ⟨s, #[⟨segmentD, []⟩], [(⟨"1-g"⟩, homeward)], [⟨"1-d"⟩], false, []⟩

theorem placed_layoutD (s : Store) :
    (start s).placed ⟨"1-d"⟩ layoutD = ⟨s, #[⟨segmentD, []⟩], [], [⟨"1-d"⟩], false, []⟩ := by
  have hnodes : layoutD.nodes 0 = [⟨segmentD, []⟩] := by cbv
  rw [placed, show (start s).nodes.size = 0 from rfl, hnodes]
  rfl

/-- The fourth trace links back to the third, which is being entered. -/
theorem splice_homeward (s : Store) :
    splice ⟨backend, 10⟩ options 0 homeward none (turning s)
      = (.error (.linkCycle ⟨"1-d"⟩ [⟨"1-d"⟩, ⟨"1-g"⟩]),
          ((turning s).placed ⟨"1-g"⟩ layoutG).left) := by
  have hl : Layout.ofTrace homeward none options.orphans = .ok layoutG := by cbv
  have hlinks : linksOn options 1 layoutG = [(1, segmentG, ⟨"1-d"⟩)] := by cbv
  have hall : followAll ⟨backend, 10⟩ (deeper ⟨backend, 10⟩ options 0) (linksOn options 1 layoutG)
      ((turning s).placed ⟨"1-g"⟩ layoutG)
      = (.error (.linkCycle ⟨"1-d"⟩ [⟨"1-d"⟩, ⟨"1-g"⟩]),
          (turning s).placed ⟨"1-g"⟩ layoutG) := by
    rw [hlinks]
    exact FollowStep.followAll_error (.cycle (by simp [placed, turning])) []
  rw [splice_eq, enter_of_links hl hall]
  rfl

/-- The third and the fourth trace link to each other. -/
theorem build_outward : Tree.build ⟨backend, 10⟩ (Header.ofRoot ⟨"1-d"⟩) options store
    = (.error (.linkCycle ⟨"1-d"⟩ [⟨"1-d"⟩, ⟨"1-g"⟩]), after [[⟨"1-d"⟩], [⟨"1-g"⟩]]) := by
  have hsource := trace_after [] ⟨"1-d"⟩
  rw [answerTo_outward] at hsource
  have htarget := trace_after [[⟨"1-d"⟩]] ⟨"1-g"⟩
  rw [answerTo_homeward] at htarget
  have hl : Layout.ofTrace outward none options.orphans = .ok layoutD := by cbv
  have hlinks : linksOn options 0 layoutD = [(0, segmentD, ⟨"1-g"⟩)] := by cbv
  have hall : followAll ⟨backend, 10⟩ (deeper ⟨backend, 10⟩ options 1) (linksOn options 0 layoutD)
      ((start (after [[⟨"1-d"⟩]])).placed ⟨"1-d"⟩ layoutD)
      = (.error (.linkCycle ⟨"1-d"⟩ [⟨"1-d"⟩, ⟨"1-g"⟩]),
          ((turning (after [[⟨"1-d"⟩], [⟨"1-g"⟩]])).placed ⟨"1-g"⟩ layoutG).left) := by
    rw [hlinks, placed_layoutD]
    exact FollowStep.followAll_error (.enterFails _ homeward _ _ _ (by simp) rfl
      (.found homeward _ rfl htarget) (splice_homeward _)) []
  have hsplice : splice ⟨backend, 10⟩ options 1 outward none (.start (after [[⟨"1-d"⟩]]))
      = (.error (.linkCycle ⟨"1-d"⟩ [⟨"1-d"⟩, ⟨"1-g"⟩]),
          ((turning (after [[⟨"1-d"⟩], [⟨"1-g"⟩]])).placed ⟨"1-g"⟩ layoutG).left.left) := by
    rw [splice_eq, enter_of_links hl hall]
    rfl
  exact build_eq_error.mpr
    (.inl (assemble_eq_error.mpr (.inr ⟨outward, _, _, hsource, hsplice, rfl⟩)))

end Store.Sample

open Store.Sample in
/-- A run that meets a cycle of two traces, and one that meets none. -/
theorem Tree.cycles_sample :
    Tree.build ⟨Store.backend, 10⟩ (Header.ofRoot ⟨"1-d"⟩) options store
        = (.error (.linkCycle ⟨"1-d"⟩ [⟨"1-d"⟩, ⟨"1-g"⟩]), after [[⟨"1-d"⟩], [⟨"1-g"⟩]]) ∧
      Tree.CycleMet ⟨Store.backend, 10⟩ (Header.ofRoot ⟨"1-d"⟩) options store
        (after [[⟨"1-d"⟩], [⟨"1-g"⟩]]) ⟨"1-d"⟩ [⟨"1-d"⟩, ⟨"1-g"⟩] ∧
      Tree.build ⟨Store.backend, 10⟩ (Header.ofRoot ⟨"1-a"⟩) options store
        = (.ok tree, after [[⟨"1-a"⟩], [⟨"1-b"⟩], [⟨"1-x"⟩]]) ∧
      ∃ spots ledger, tree.Charted (Header.ofRoot ⟨"1-a"⟩) options spots ledger ∧
        ∀ path ∈ tree.paths, (Assembly.enteredOn spots path).Nodup ∧
          (Assembly.enteredOn spots path).length ≤ options.maxLinkDepth + 1 :=
  ⟨build_outward, (Tree.cycles_of_build _ _ _ _ _).2.1 _ _ build_outward, build_store,
    (Tree.cycles_of_build _ _ _ _ _).2.2 _ build_store⟩

end CausalTrace
