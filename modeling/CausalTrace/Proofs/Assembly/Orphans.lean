import CausalTrace.Proofs.Assembly.Lineage

/-!
# What becomes of orphans

The three policies see the same root and the same orphans.  They differ in what they make of a trace
that has both: one leaves the orphans out, and the others report the first of them.

## Main definitions

* `Reference.Lays` — the layout that the parent ids of a trace describe
* `Reference.EarliestOrphan` — the orphan that is reported
* `Layout.UnderPolicies` — what the policies make of a trace with a root

## Main statements

* `Reference.lays_iff` — a layout is the one that the parent ids describe, under every policy
* `Layout.ofTrace_policies`

## Design notes

Neither which segments count, nor which of them is the root, nor which layout the parent ids
describe depends on a policy.  So layouts are not compared with each other, but each with the one
described; that there is one and no more gives that they are the same.
-/

namespace CausalTrace

namespace Reference

variable {t : Trace} {designated : Option String} {policy : OrphanPolicy} {root s : Segment}

/-! ### The layout that parent ids describe -/

/-- A layout has a root, and attaches to each segment those that climb to it, in their order. -/
structure Lays (counted : List Segment) (root : Segment) (l : Layout) : Prop where
  root_eq : l.root = root
  order : (l.attached.map Prod.snd).Sublist counted
  attached : ∀ e, e ∈ l.attached ↔ ∃ u, Climbs counted root e.2 u ∧ u ≠ e.2 ∧ e.1 = u.id

/-- The layout of a trace is the one that the parent ids describe. -/
theorem lays_of_ofTrace {l : Layout} (h : Layout.ofTrace t designated policy = .ok l) :
    Lays (Layout.counted t) l.root l where
  root_eq := rfl
  order := Layout.attached_sublist h
  attached e := by
    constructor
    · intro he
      obtain ⟨_, u, -, hresolve, -, hid⟩ := Layout.owner?_eq_some.mp (Layout.mem_attached h he).2.2
      have hu : u ∈ Layout.counted t := (means_iff.mpr hresolve).mem
      have hmem : e.2 ∈ Layout.looseBelow l.attached u.id := by
        rw [hid]
        exact Layout.mem_looseBelow_self.mpr he
      obtain ⟨hup, hne⟩ := (mem_looseBelow_iff h hu).mp hmem
      exact ⟨u, hup, hne, hid.symm⟩
    · rintro ⟨u, hup, hne, hid⟩
      obtain ⟨_, -, hmeans⟩ := hup.2.2
      have hmem := (mem_looseBelow_iff h hmeans.mem).mpr ⟨hup, hne⟩
      rw [← hid] at hmem
      exact Layout.mem_looseBelow_self.mp hmem

/-- Parent ids describe one layout. -/
theorem Lays.unique {l l' : Layout} (h : Lays (Layout.counted t) root l)
    (h' : Lays (Layout.counted t) root l') : l = l' := by
  have hattached : l.attached = l'.attached :=
    eq_of_map_sublist (Layout.nodup_counted t) h.order h'.order fun e =>
      (h.attached e).trans (h'.attached e).symm
  cases l
  cases l'
  exact congrArg₂ Layout.mk (h.root_eq.trans h'.root_eq.symm) hattached

/-- A layout is the one that the parent ids describe, under every policy. -/
theorem lays_iff {l l' : Layout} (h : Layout.ofTrace t designated policy = .ok l) :
    Lays (Layout.counted t) l.root l' ↔ l' = l := by
  constructor
  · exact fun h' => h'.unique (lays_of_ofTrace h)
  · rintro rfl
    exact lays_of_ofTrace h

/-! ### Orphans -/

/-- The copy of an orphan that comes before all others. -/
def EarliestOrphan (t : Trace) (counted : List Segment) (root : Segment)
    (designated : Option String) (a : Segment × Nat) (parent : String) : Prop :=
  FirstCopy t.segments a ∧ Orphan counted root designated a.1 parent ∧
    ∀ b p, FirstCopy t.segments b → Orphan counted root designated b.1 p → b = a ∨ Before a b

/-- The parent id of an orphan means nothing. -/
theorem Orphan.not_resolves {counted : List Segment} {parent : String}
    (h : Orphan counted root designated s parent) (u : Segment) : ¬ Resolves counted s u := by
  rintro ⟨-, parent', hparent', hmeans⟩
  obtain ⟨-, hparent, -, hnone⟩ := h
  obtain rfl := Option.some.inj (hparent.symm.trans hparent')
  obtain ⟨hid, hnests⟩ := hnone u hmeans.mem
  rcases hmeans with ⟨-, hu⟩ | ⟨-, _, _, -, hu, -⟩
  · exact hid hu
  · exact hnests hu

/-- An orphan is put below none. -/
theorem Orphan.leftOut {counted : List Segment} {parent : String}
    (h : Orphan counted root designated s parent) (hs : s ∈ counted) : LeftOut counted root s :=
  ⟨hs, h.1, fun u hu => absurd hu (h.not_resolves u)⟩

open Classical in
/-- If there are orphans, one of them is the first. -/
theorem exists_firstOrphan {counted : List Segment}
    (h : ∃ s ∈ counted, ∃ parent, Orphan counted root designated s parent) :
    ∃ s parent, FirstOrphan counted root designated s parent := by
  obtain ⟨s, hs, horphan⟩ := h
  have hsome : (counted.find? fun u => decide (∃ p, Orphan counted root designated u p)).isSome :=
    List.find?_isSome.mpr ⟨s, hs, decide_eq_true horphan⟩
  obtain ⟨u, hu⟩ := Option.isSome_iff_exists.mp hsome
  obtain ⟨horphan, front, back, hsplit, hfront⟩ := List.find?_eq_some_iff_append.mp hu
  obtain ⟨parent, horphan⟩ := of_decide_eq_true horphan
  refine ⟨u, parent, horphan, front, back, hsplit, fun v hv p hp => ?_⟩
  have hv := hfront v hv
  rw [Bool.not_eq_true', decide_eq_false_iff_not] at hv
  exact hv ⟨p, hp⟩

/-- The first orphan is a first copy, and comes before the copies of all other orphans. -/
theorem FirstOrphan.exists_copy {parent : String}
    (h : FirstOrphan (Layout.counted t) root designated s parent) :
    ∃ i, EarliestOrphan t (Layout.counted t) root designated (s, i) parent := by
  obtain ⟨horphan, front, back, hsplit, hfront⟩ := h
  obtain ⟨copies, hpairwise, hcopies, hcounted⟩ := counted_counted t
  obtain ⟨before, others, rfl, rfl, hothers⟩ :=
    List.map_eq_append_iff.mp (hcounted.symm.trans hsplit)
  obtain ⟨⟨u, i⟩, after, rfl, rfl, rfl⟩ := List.map_eq_cons_iff.mp hothers
  refine ⟨i, (hcopies _).mp (List.mem_append_right _ List.mem_cons_self), horphan,
    fun b p hb hp => ?_⟩
  rcases List.mem_append.mp ((hcopies b).mpr hb) with hbefore | hafter
  · exact absurd hp (hfront b.1 (List.mem_map_of_mem hbefore) p)
  · rcases List.mem_cons.mp hafter with rfl | hafter
    · exact .inl rfl
    · exact .inr ((List.pairwise_cons.mp (List.pairwise_append.mp hpairwise).2.1).1 b hafter)

end Reference

namespace Layout

open Reference

/-! ### The policies -/

/-- What the policies make of a trace that has a root, given the segments that count and the layout
without orphans. -/
structure UnderPolicies (l : Layout) (t : Trace) (designated : Option String)
    (counted : List Segment) : Prop where
  outline : Outline t designated counted l.root
  pruned : ofTrace t designated .prune = .ok l
  /-- It is the layout that the parent ids describe. -/
  lays : ∀ l', Lays counted l.root l' ↔ l' = l
  reached : ∀ s, s ∈ l.placed ↔
    Relation.ReflTransGen (fun c u => Resolves counted c u ∧ u ≠ c) s l.root
  /-- Neither orphans nor what is below them can be reached from the root. -/
  unreached : ∀ s ∈ counted, ∀ parent, Orphan counted l.root designated s parent →
    ∀ d, Relation.ReflTransGen (Climbs counted l.root) d s → d ∉ l.placed
  same : (∀ s ∈ counted, ∀ parent, ¬ Orphan counted l.root designated s parent) →
    ∀ policy, ofTrace t designated policy = .ok l
  /-- If there are orphans, the other policies report the same one, a first copy that comes before
  all other orphans. -/
  reported : ∀ s ∈ counted, ∀ parent, Orphan counted l.root designated s parent →
    ∃ a p, EarliestOrphan t counted l.root designated a p ∧
      ofTrace t designated .retry = .error (.parentMissing t.id a.1.id p) ∧
      ofTrace t designated .fail = .error (.orphaned t.id a.1.id p)
  /-- What is below an orphan is none. -/
  descendants : ∀ s parent, Orphan counted l.root designated s parent →
    ∀ d, Relation.TransGen (Resolves counted) d s →
      ∀ p, ¬ Orphan counted l.root designated d p

section

variable {t : Trace} {designated : Option String} {root : Segment}

/-- Without orphans, all policies give the layout that one of them gives. -/
theorem ofTrace_same {policy : OrphanPolicy} {l : Layout}
    (h : ofTrace t designated policy = .ok l)
    (hnone : ∀ s ∈ counted t, ∀ parent, ¬ Orphan (counted t) l.root designated s parent)
    (policy' : OrphanPolicy) : ofTrace t designated policy' = .ok l := by
  obtain ⟨l', hl', hroot⟩ : ∃ l', ofTrace t designated policy' = .ok l' ∧ l'.root = l.root :=
    ofTrace_outline (outline_of_ofTrace h) (.inr hnone)
  have hlays := lays_of_ofTrace hl'
  rw [hroot] at hlays
  rwa [(lays_iff h).mp hlays] at hl'

/-- With orphans, two policies report the first of them. -/
theorem ofTrace_reported (houtline : Outline t designated (counted t) root)
    (h : ∃ s ∈ counted t, ∃ parent, Orphan (counted t) root designated s parent) :
    ∃ a p, EarliestOrphan t (counted t) root designated a p ∧
      ofTrace t designated .retry = .error (.parentMissing t.id a.1.id p) ∧
      ofTrace t designated .fail = .error (.orphaned t.id a.1.id p) := by
  obtain ⟨s, p, hfirst⟩ := exists_firstOrphan h
  obtain ⟨i, hi⟩ := hfirst.exists_copy
  exact ⟨(s, i), p, hi, enters_error_iff.mp (.awaited houtline hfirst rfl),
    enters_error_iff.mp (.orphaned houtline hfirst rfl)⟩

/-- The policies agree about the trace, or differ about its first orphan. -/
theorem underPolicies_of_outline (houtline : Outline t designated (counted t) root) :
    ∃ l : Layout, l.UnderPolicies t designated (counted t) := by
  obtain ⟨l, hl, rfl⟩ := ofTrace_outline houtline (.inl rfl)
  refine ⟨l, ⟨houtline, hl, fun _ => lays_iff hl, fun _ => mem_placed_iff hl, ?_,
    ofTrace_same hl, fun s hs p hp => ofTrace_reported houtline ⟨s, hs, p, hp⟩, ?_⟩⟩
  · exact fun s hs _ hp _ hd => not_mem_placed_of_leftOut hl hd (hp.leftOut hs)
  · intro _ _ _ d hd p hp
    obtain ⟨u, hu, -⟩ := Relation.TransGen.head'_iff.mp hd
    exact hp.not_resolves u hu

end

/-- A trace in which nothing may be the root has no layout under any policy; one with a root has the
same layout under all policies, unless there are orphans, which one policy leaves out and the others
report. -/
theorem ofTrace_policies (t : Trace) (designated : Option String) :
    ∃ counted, Counted t.segments counted ∧
      ((∀ s, ¬ MayBeRoot counted designated s) →
        ∀ policy, ofTrace t designated policy = .error (.rootNotFound t.id)) ∧
      ((∃ s, MayBeRoot counted designated s) →
        ∃ l : Layout, l.UnderPolicies t designated counted) := by
  refine ⟨counted t, counted_counted t, fun hnone policy => ?_, fun ⟨s, hs⟩ => ?_⟩
  · exact enters_error_iff.mp (.rootless (counted_counted t) hnone)
  · cases hr : earliest? ((counted t).filter (isCandidate designated)) with
    | none =>
        have hmem := mem_candidates.mpr hs
        rw [earliest?_eq_none.mp hr] at hmem
        cases hmem
    | some root => exact underPolicies_of_outline (outline_iff.mpr ⟨rfl, hr⟩)

/-- The parent of the orphan is nested in a later copy of a segment, which does not count. -/
theorem policies_sample :
    ofTrace Sample.trace (some "n") .retry = .error (.parentMissing ⟨"1-t"⟩ "o" "z") ∧
      ofTrace Sample.trace (some "n") .fail = .error (.orphaned ⟨"1-t"⟩ "o" "z") ∧
      ∃ counted, Sample.layout.UnderPolicies Sample.trace (some "n") counted := by
  refine ⟨by cbv, by cbv, ?_⟩
  obtain ⟨segments, hsegments, -, hroot⟩ := ofTrace_policies Sample.trace (some "n")
  have hmem : Sample.segmentR ∈ segments := by
    rw [counted_iff.mp hsegments, Sample.counted_trace]
    exact List.mem_cons_self
  obtain ⟨l, hl⟩ := hroot ⟨Sample.segmentR, hmem, .inr rfl⟩
  obtain rfl := Except.ok.inj (hl.pruned.symm.trans Sample.ofTrace_trace)
  exact ⟨segments, hl⟩

end Layout

end CausalTrace
