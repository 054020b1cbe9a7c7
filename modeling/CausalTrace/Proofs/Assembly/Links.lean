import CausalTrace.Proofs.Assembly.WellFormed

/-!
# No link is lost or counted twice

When links are followed, each node of a tree has its links dealt with once per trace that they
lead to, in the order in which they come: either the root of that trace stands below the node,
behind what is below it in its own trace, or the link is listed as unresolved.  Nothing else is
listed, and a trace that is not there is never the reason why no tree is built, unless it is the
source trace.

## Main definitions

* `Segment.LinksTo` — a segment, or one nested in it, has a link to a child trace
* `Tree.LinksSettled` — what became of every link of a tree

## Main statements

* `Assembly.splice_failure` — the failures that entering a trace can end with
* `Tree.linksSettled_of_build`

## Design notes

Segments may stand at several nodes, and nodes for different traces may have segments with one id,
so that a list of unresolved links does not say by itself which nodes they belong to.  The ledger
does: the list of unresolved links is the ledger, less the links that were followed.
-/

namespace CausalTrace

/-! ### Where links lead -/

/-- A segment, or one nested in it, has a link to a child trace. -/
def Segment.LinksTo (s : Segment) (target : TraceId) : Prop :=
  ∃ d ∈ s :: s.descendants, ∃ link ∈ d.links, link.kind = .child ∧ link.trace = target

/-- A trace may turn out not to be there. -/
def Lookup.Misses {σ : Type} (l : Lookup σ) (target : TraceId) : Prop :=
  ∃ s id s', l.trace target s = (.error (.traceNotFound id), s')

namespace Assembly

variable {σ : Type} {l : Lookup σ} {options : Options}

theorem nodup_targets (s : Segment) : (targets s).Nodup := nodup_eraseDups _

/-- The targets of a segment are the traces that it or a segment nested in it links to. -/
theorem mem_targets {s : Segment} {target : TraceId} :
    target ∈ targets s ↔ s.LinksTo target := by
  unfold targets Segment.linksOf Segment.LinksTo
  rw [List.mem_eraseDups, List.mem_map, List.exists_mem_cons_iff]
  constructor
  · rintro ⟨link, hlink, rfl⟩
    obtain ⟨hmem, hkind⟩ := List.mem_filter.mp hlink
    have hkind' : link.kind = .child := by simpa using hkind
    rcases List.mem_append.mp hmem with hown | hnested
    · exact .inl ⟨link, hown, hkind', rfl⟩
    · obtain ⟨d, hd, hlinkd⟩ := List.mem_flatMap.mp hnested
      exact .inr ⟨d, hd, link, hlinkd, hkind', rfl⟩
  · rintro (⟨link, hlink, hkind, rfl⟩ | ⟨d, hd, link, hlink, hkind, rfl⟩)
    · exact ⟨link, List.mem_filter.mpr ⟨List.mem_append_left _ hlink, by simp [hkind]⟩, rfl⟩
    · have hmem : link ∈ s.links ++ s.descendants.flatMap Segment.links :=
        List.mem_append_right _ (List.mem_flatMap.mpr ⟨d, hd, hlink⟩)
      exact ⟨link, List.mem_filter.mpr ⟨hmem, by simp [hkind]⟩, rfl⟩

/-- The links that a node holds, when every spot has a number of its own. -/
theorem heldBy_spots {f : Segment → List TraceId} :
    ∀ {spots : List Spot} {n k : Nat} {p : Spot},
      spots.map Spot.number = List.range' n spots.length → spots[k]? = some p →
      heldBy (spots.flatMap fun q => (f q.segment).map fun target => (q.number, q.segment, target))
          (n + k)
        = (f p.segment).map fun target => (n + k, p.segment, target) := by
  intro spots
  induction spots with
  | nil =>
      intro n k p _ hp
      cases hp
  | cons q rest ih =>
      intro n k p hnumbers hp
      rw [List.map_cons, List.length_cons, List.range'_succ, List.cons.injEq] at hnumbers
      obtain ⟨hq, hrest⟩ := hnumbers
      rw [List.flatMap_cons, heldBy_append]
      -- numbers ascend, so that of all spots only the one looked for holds links under its number
      cases k with
      | zero =>
          obtain rfl := Option.some.inj hp
          have hothers : heldBy (rest.flatMap fun q =>
              (f q.segment).map fun target => (q.number, q.segment, target)) (n + 0) = [] := by
            refine heldBy_eq_nil fun link hlink => ?_
            obtain ⟨r, hr, hl⟩ := List.mem_flatMap.mp hlink
            obtain ⟨target, -, rfl⟩ := List.mem_map.mp hl
            have hmem := List.mem_map_of_mem (f := Spot.number) hr
            rw [hrest, List.mem_range'_1] at hmem
            simp only
            omega
          rw [hothers, List.append_nil, hq]
          refine List.filter_eq_self.mpr fun link hlink => ?_
          obtain ⟨target, -, rfl⟩ := List.mem_map.mp hlink
          exact beq_self_eq_true _
      | succ k =>
          have hown : heldBy ((f q.segment).map fun target => (q.number, q.segment, target))
              (n + (k + 1)) = [] := by
            refine heldBy_eq_nil fun link hlink => ?_
            obtain ⟨target, -, rfl⟩ := List.mem_map.mp hlink
            simp only
            omega
          have hnumber : n + (k + 1) = n + 1 + k := by omega
          rw [hown, List.nil_append, hnumber]
          exact ih hrest hp

/-- The entries for a node, when links are followed: one for each trace that its links lead to. -/
theorem Journal.entries_at {found : TraceId → Trace → Prop} {missing : TraceId → Prop}
    {header : Header} {t : Tree} {spots : List Spot} {ledger : List Followed}
    (h : Journal options found missing header t spots ledger)
    (hfetch : options.fetchChildTraces = true) {i : Nat} {p : Spot} (hp : spots[i]? = some p) :
    (entriesAt ledger i).map Followed.link
      = (targets p.segment).map fun target => (i, p.segment, target) := by
  have hheld := heldBy_spots (f := targets) (h.numbers.trans List.range_eq_range') hp
  rw [Nat.zero_add] at hheld
  rw [h.entries i, linksAt, if_pos hfetch, hheld]

/-- The entries for a node are for the traces that its links lead to, in the order of the links. -/
theorem Journal.targets_at {found : TraceId → Trace → Prop} {missing : TraceId → Prop}
    {header : Header} {t : Tree} {spots : List Spot} {ledger : List Followed}
    (h : Journal options found missing header t spots ledger)
    (hfetch : options.fetchChildTraces = true) {i : Nat} {p : Spot} (hp : spots[i]? = some p) :
    (entriesAt ledger i).map Followed.target = targets p.segment := by
  have hentries := congrArg (List.map fun link => link.2.2) (h.entries_at hfetch hp)
  rw [List.map_map, List.map_map] at hentries
  simpa [Function.comp_def, Followed.link] using hentries

/-! ### Failures -/

section

variable {P : Failure → Prop}
  (hlayout : ∀ t designated e, Layout.ofTrace t designated options.orphans = .error e → P e)
  (hcycle : ∀ target chain, P (.linkCycle target chain))
  (hlookup : ∀ target s e s', l.trace target s = (.error e, s') → (∀ id, e ≠ .traceNotFound id) →
    P e)

include hlayout hcycle hlookup in
/-- Entering a trace fails because a trace has no layout, because links lead back to a trace being
entered, or because a look-up fails otherwise than by not finding a trace. -/
theorem splice_failure :
    ∀ (levels : Nat) {t : Trace} {designated : Option String} {a a' : Assembly σ} {e : Failure},
      splice l options levels t designated a = (.error e, a') → P e := by
  refine levels_induction fun levels ih => ?_
  intro t designated a a' e h
  rw [splice_eq] at h
  rcases enter_error h with ⟨hl, -⟩ | ⟨layout, a₁, -, hall, -⟩
  · exact hlayout _ _ _ hl
  · obtain ⟨link, -, a₂, -, hstep⟩ := (respected_frame l).failing_link hall
    cases hstep with
    | cycle _ => exact hcycle _ _
    | lookupFails _ _ st _ _ _ ht he => exact hlookup _ _ _ _ ht he
    | enterFails enter t a₁ _ _ _ hd _ hn =>
        obtain ⟨n, hlevels, rfl⟩ := deeper_eq_some hd
        exact ih n hlevels hn

end

/-- A trace that is not found is the source trace. -/
theorem build_traceNotFound {header : Header} {s s' : σ} {id : TraceId}
    (h : Tree.build l header options s = (.error (.traceNotFound id), s')) :
    id = header.root ∧ l.trace header.root s = (.error (.traceNotFound id), s') := by
  rcases build_eq_error.mp h with h | ⟨t, leaf, -, -, -, hleaf⟩
  · rcases assemble_eq_error.mp h with hsource | ⟨source, s₁, a, -, hsplice, -⟩
    · rcases Lookup.trace_error hsource with hid | ⟨cause, hc⟩ | ⟨i, cause, hc⟩
      · exact ⟨Failure.traceNotFound.inj hid, hsource⟩
      · cases hc
      · cases hc
    · have hne := splice_failure (P := fun e => e ≠ .traceNotFound id)
        (fun t designated e he => by
          rcases Layout.ofTrace_error he with rfl | ⟨s, p, rfl⟩ | ⟨s, p, rfl⟩ <;> simp)
        (fun target chain => by simp) (fun target s e s' _ he => he id) options.maxLinkDepth hsplice
      exact absurd rfl hne
  · cases hleaf

end Assembly

open Assembly in
/-- What became of every link of a tree: there is an entry in the ledger for each node and each
trace that the links of the node lead to, and nothing else. -/
structure Tree.LinksSettled {σ : Type} (t : Tree) (l : Lookup σ) (header : Header)
    (options : Options) (spots : List Spot) (ledger : List Followed) : Prop extends
    t.Charted header options spots ledger where
  /-- A node has its entries in the order of its links. -/
  entries : ∀ (i : Nat) (p : Spot), spots[i]? = some p →
    (entriesAt ledger i).map Followed.link
      = (targets p.segment).map fun target => (i, p.segment, target)
  /-- It has exactly one for each trace that a link on its segment or a nested one leads to. -/
  once : ∀ (i : Nat) (p : Spot), spots[i]? = some p →
    ((entriesAt ledger i).map Followed.target).Nodup ∧
      ∀ target, target ∈ (entriesAt ledger i).map Followed.target ↔ p.segment.LinksTo target
  /-- A link that was not followed is on the last level, or leads to a trace that is not there. -/
  left : ∀ f ∈ ledger, ∀ reason, f.fate = .left reason → ∃ p : Spot, spots[f.holder]? = some p ∧
    (reason = .depthLimit ↔ p.depth = options.maxLinkDepth) ∧
    (reason = .notFound → l.Misses f.target)
  /-- The unresolved links are those that were not followed, and nothing else. -/
  unresolved : t.unresolved = ledger.filterMap Followed.unresolved?
  limit : t.linkLimitExceeded = true ↔ ∃ u ∈ t.unresolved, u.reason = .depthLimit
  keys : ∀ id, (∃ u, t.childTraces.get? id = some u) ↔
    ∃ f ∈ ledger, f.target = id ∧ ∃ root, f.fate = .entered root
  stored : ∀ id u, t.childTraces.get? id = some u → u.id = id ∧ u.segments ≠ []
  sourceKey : t.childTraces.get? header.root = none

namespace Assembly

variable {σ : Type} {l : Lookup σ} {options : Options}

/-- The journal of a tree settles every link, if links are followed. -/
theorem Journal.linksSettled {found : TraceId → Trace → Prop} {missing : TraceId → Prop}
    {header : Header} {t : Tree} {spots : List Spot} {ledger : List Followed}
    (h : Journal options found missing header t spots ledger)
    (hfetch : options.fetchChildTraces = true)
    (hfound : ∀ id u, found id u → u.id = id ∧ u.segments ≠ [])
    (hmissing : ∀ target, missing target → l.Misses target) :
    t.LinksSettled l header options spots ledger where
  toCharted := h.charted
  entries i p hp := h.entries_at hfetch hp
  once i p hp := by
    rw [h.targets_at hfetch hp]
    exact ⟨nodup_targets _, fun target => mem_targets⟩
  left f hf reason hreason := by
    cases h.settled f hf with
    | entered _ _ _ _ _ _ _ _ _ _ _ => cases hreason
    | left p hp _ _ hlimit hnone =>
        cases hreason
        have hdepth := (h.rooted p (List.mem_of_getElem? hp)).depth_eq
        refine ⟨p, hp, ?_, fun hn => hmissing _ (hnone hn)⟩
        rw [hlimit]
        omega
  unresolved := h.unresolved
  limit := by
    rw [h.limit, h.unresolved]
    constructor
    · rintro ⟨f, hf, hfate⟩
      have hfu := Followed.unresolved?_eq_some.mpr ⟨_, hfate, rfl⟩
      exact ⟨_, List.mem_filterMap.mpr ⟨f, hf, hfu⟩, rfl⟩
    · rintro ⟨u, hu, hreason⟩
      obtain ⟨f, hf, hfu⟩ := List.mem_filterMap.mp hu
      obtain ⟨reason, hfate, rfl⟩ := Followed.unresolved?_eq_some.mp hfu
      exact ⟨f, hf, hreason ▸ hfate⟩
  keys := h.childTraces
  stored id u hu := by
    obtain ⟨f, hf, rfl, root, hroot⟩ := (h.childTraces id).mp ⟨u, hu⟩
    cases h.settled f hf with
    | left _ _ _ _ _ => cases hroot
    | entered p q _ _ _ _ _ _ _ hq _ =>
        obtain rfl := Option.some.inj (hu.symm.trans hq.2)
        exact hfound _ _ hq.1
  sourceKey := by
    refine Option.eq_none_iff_forall_ne_some.mpr fun u hu => ?_
    -- the source trace is in every chain, and no link to a trace of its chain is followed
    obtain ⟨f, hf, htarget, root, hroot⟩ := (h.childTraces header.root).mp ⟨u, hu⟩
    obtain ⟨p, hp, -, hc⟩ := (h.settled f hf).holds
    have hstarts := (h.rooted p (List.mem_of_getElem? hp)).starts
    rw [htarget] at hc
    exact hc (hstarts.subset List.mem_cons_self)

end Assembly

/-- What becomes of every link: in a tree that is built with links followed, it is settled, and no
tree fails to be built because a trace that a link leads to is not found. -/
theorem Tree.linksSettled_of_build {σ : Type} (l : Lookup σ) (header : Header) (options : Options)
    (hfetch : options.fetchChildTraces = true) (s s' : σ) :
    (∀ t, Tree.build l header options s = (.ok t, s') →
      ∃ spots ledger, t.LinksSettled l header options spots ledger) ∧
    ∀ id, Tree.build l header options s = (.error (.traceNotFound id), s') →
      id = header.root ∧ l.trace header.root s = (.error (.traceNotFound id), s') := by
  refine ⟨fun t h => ?_, fun id h => Assembly.build_traceNotFound h⟩
  obtain ⟨hassemble, -⟩ := Assembly.build_eq_ok.mp h
  obtain ⟨spots, ledger, hj⟩ := Assembly.assemble_journal (Assembly.finds_keyed l)
    (fun _ _ hf => hf.1) (fun target s id s' _ ht => (⟨s, id, s', ht⟩ : l.Misses target)) trivial
    hassemble
  exact ⟨spots, ledger, hj.linksSettled hfetch (fun _ _ hu => hu) fun _ hm => hm⟩

open Store.Sample in
/-- A tree with a link to a trace that is entered, one to a trace that is missing and one that is
cut, and a source trace that is missing. -/
theorem Tree.linksSettled_sample :
    options.fetchChildTraces = true ∧
      Tree.build ⟨Store.backend, 10⟩ (Header.ofRoot ⟨"1-a"⟩) options store
        = (.ok tree, after [[⟨"1-a"⟩], [⟨"1-b"⟩], [⟨"1-x"⟩]]) ∧
      (∃ spots ledger,
        tree.LinksSettled ⟨Store.backend, 10⟩ (Header.ofRoot ⟨"1-a"⟩) options spots ledger) ∧
      Tree.build ⟨Store.backend, 10⟩ (Header.ofRoot ⟨"1-x"⟩) options store
        = (.error (.traceNotFound ⟨"1-x"⟩), after [[⟨"1-x"⟩]]) ∧
      (⟨"1-x"⟩ : TraceId) = (Header.ofRoot ⟨"1-x"⟩).root :=
  ⟨rfl, build_store, (Tree.linksSettled_of_build _ _ _ rfl _ _).1 _ build_store, build_missing,
    ((Tree.linksSettled_of_build _ _ _ rfl _ _).2 _ build_missing).1⟩

end CausalTrace
