import CausalTrace.Proofs.Assembly.Placement
import CausalTrace.Proofs.Assembly.Reference

/-!
# Layouts and outlines

A layout is computed from a sorted list, from searches and from filters.  What it says of a trace is
what the outline of the trace says: which segments count, which of them is the root, and which hang
below which.

## Main statements

* `Reference.counted_iff` — the segments that count are the first copies of the sorted segments
* `Reference.outline_iff` — the root is the earliest candidate
* `Reference.means_iff` — what a parent id means is what it is resolved to
* `Reference.enters_iff` — a trace has its layout's root, and fails for its layout's reason
* `Reference.hanging_iff` — what hangs below a segment is what the layout attaches to it
* `Reference.Enters.unique`, `Reference.Hanging.unique` — one result and no more

## Design notes

A copy of a segment is a segment and its index.  A stable sort of segments is a sort of copies, and
copies have a strict order.
-/

namespace CausalTrace

namespace Reference

theorem nests_iff {s : Segment} {id : String} :
    Nests s id ↔ (s.descendants.any fun d => d.id == id) = true := by
  unfold Nests
  rw [Segment.preorder_eq_cons, List.tail_cons, List.any_eq_true]
  simp only [beq_iff_eq]

theorem targets_eq (s : Segment) : targets s = Assembly.targets s := by
  unfold targets Assembly.targets Segment.linksOf
  rw [Segment.preorder_eq_cons, List.flatMap_cons]

/-! ### The segments that count -/

theorem before_asymm {a b : Segment × Nat} (h : Before a b) : ¬ Before b a := by
  have hlt : ∀ {x y : Timestamp}, x < y → ¬ y < x := fun h => Nat.lt_asymm h
  rintro (h' | ⟨h', hi'⟩) <;> rcases h with h | ⟨h, hi⟩
  · exact hlt h h'
  · exact Nat.lt_irrefl _ (h ▸ h' : a.1.start < a.1.start)
  · exact Nat.lt_irrefl _ (h' ▸ h : a.1.start < a.1.start)
  · omega

theorem nodup_of_pairwise_before {copies : List (Segment × Nat)} (h : copies.Pairwise Before) :
    copies.Nodup := by
  refine h.imp ?_
  rintro a b hab rfl
  exact before_asymm hab hab

/-- Two timestamps with the same nanoseconds are one. -/
theorem start_eq_of_le {x y : Timestamp} (h : x ≤ y) (h' : y ≤ x) : x = y := by
  have hnanos : x.nanos.toNat = y.nanos.toNat := Nat.le_antisymm h h'
  cases x
  cases y
  exact congrArg Timestamp.mk (UInt64.toNat_inj.mp hnanos)

/-- A copy that starts no later and has a smaller index comes before. -/
theorem before_of_le {a b : Segment × Nat} (h : a.1.start ≤ b.1.start) (hi : a.2 < b.2) :
    Before a b := by
  by_cases h' : b.1.start ≤ a.1.start
  · exact .inr ⟨start_eq_of_le h h', hi⟩
  · exact .inl (Nat.not_le.mp h')

theorem startsBy_trans (s t u : Segment) (h : decide (s.start ≤ t.start) = true)
    (h' : decide (t.start ≤ u.start) = true) : decide (s.start ≤ u.start) = true :=
  decide_eq_true (Nat.le_trans (of_decide_eq_true h) (of_decide_eq_true h'))

theorem startsBy_total (s t : Segment) :
    (decide (s.start ≤ t.start) || decide (t.start ≤ s.start)) = true := by
  rw [Bool.or_eq_true, decide_eq_true_eq, decide_eq_true_eq]
  exact Nat.le_total _ _

/-- The copies of the segments of a trace in the order of the stable sort. -/
theorem exists_sorted (segments : List Segment) :
    ∃ copies : List (Segment × Nat), copies.map Prod.fst = Layout.inStartOrder segments ∧
      copies.Pairwise Before ∧ ∀ a, a ∈ copies ↔ a ∈ segments.zipIdx := by
  let le : Segment → Segment → Bool := fun s t => decide (s.start ≤ t.start)
  have hsorted := List.pairwise_mergeSort (List.zipIdxLE_trans startsBy_trans)
    (List.zipIdxLE_total startsBy_total) segments.zipIdx
  have hnodup : (segments.zipIdx.mergeSort (List.zipIdxLE le)).Pairwise fun a b => a.2 ≠ b.2 := by
    have hindices : (segments.zipIdx.map Prod.snd).Nodup := by
      rw [List.zipIdx_map_snd]
      exact List.nodup_range'
    exact List.pairwise_map.mp
      (((List.mergeSort_perm _ _).map Prod.snd).nodup_iff.mpr hindices)
  refine ⟨_, List.mergeSort_zipIdx, (hsorted.and hnodup).imp ?_, fun a => List.mem_mergeSort⟩
  rintro a b ⟨hle, hne⟩
  -- the comparison of copies is strict, since no two of them have the same index
  unfold List.zipIdxLE at hle
  by_cases hab : a.1.start ≤ b.1.start
  · by_cases hba : b.1.start ≤ a.1.start
    · simp only [hab, hba, decide_true, if_true, decide_eq_true_eq] at hle
      exact before_of_le hab (by omega)
    · exact .inl (Nat.not_le.mp hba)
  · simp [hab] at hle

/-- Of copies in strict order, those with a new id come before all others with it. -/
theorem exists_firstCopies {copies : List (Segment × Nat)} (h : copies.Pairwise Before) :
    ∃ first : List (Segment × Nat), first.Sublist copies ∧
      first.map Prod.fst = Layout.firstCopies (copies.map Prod.fst) ∧
      ∀ a, a ∈ first ↔ a ∈ copies ∧ ∀ b ∈ copies, b.1.id = a.1.id → b = a ∨ Before a b := by
  induction copies with
  | nil => exact ⟨[], List.Sublist.slnil, rfl, by simp⟩
  | cons c rest ih =>
      obtain ⟨hc, hrest⟩ := List.pairwise_cons.mp h
      obtain ⟨first, hsub, hmap, hmem⟩ := ih hrest
      refine ⟨c :: first.filter fun a => a.1.id ≠ c.1.id, ?_, ?_, ?_⟩
      · exact List.cons_sublist_cons.mpr (List.filter_sublist.trans hsub)
      · rw [List.map_cons, List.map_cons, Layout.firstCopies, ← hmap, List.filter_map]
        rfl
      · intro a
        simp only [List.mem_cons, List.mem_filter, hmem, decide_eq_true_eq, forall_eq_or_imp]
        constructor
        · rintro (rfl | ⟨⟨ha, hfirst⟩, hne⟩)
          · exact ⟨.inl rfl, fun _ => .inl rfl, fun b hb _ => .inr (hc b hb)⟩
          · exact ⟨.inr ha, fun hid => absurd hid.symm hne, hfirst⟩
        · rintro ⟨rfl | ha, hcfirst, hfirst⟩
          · exact .inl rfl
          · by_cases hid : c.1.id = a.1.id
            · exact (hcfirst hid).imp Eq.symm fun hac => absurd hac (before_asymm (hc a ha))
            · exact .inr ⟨⟨ha, hfirst⟩, fun h => hid h.symm⟩

/-- The segments that a layout counts are the first copies, by start time. -/
theorem counted_counted (t : Trace) : Counted t.segments (Layout.counted t) := by
  obtain ⟨copies, hsorted, hpairwise, hcopies⟩ := exists_sorted t.segments
  obtain ⟨first, hsub, hmap, hmem⟩ := exists_firstCopies hpairwise
  refine ⟨first, hpairwise.sublist hsub, fun a => ?_, ?_⟩
  · rw [hmem]
    unfold FirstCopy
    simp only [hcopies]
  · rw [hmap, hsorted]
    rfl

/-- The segments that count are those that a layout counts. -/
theorem counted_iff {t : Trace} {counted : List Segment} :
    Counted t.segments counted ↔ counted = Layout.counted t := by
  constructor
  · rintro ⟨copies, hpairwise, hcopies, rfl⟩
    obtain ⟨copies', hpairwise', hcopies', heq⟩ := counted_counted t
    -- two lists in strict order with the same members are one list
    have hperm : copies.Perm copies' := by
      refine (List.perm_ext_iff_of_nodup (nodup_of_pairwise_before hpairwise)
        (nodup_of_pairwise_before hpairwise')).mpr fun a => ?_
      rw [hcopies, hcopies']
    rw [heq, hperm.eq_of_pairwise (fun a b _ _ hab hba => absurd hba (before_asymm hab)) hpairwise
      hpairwise']
  · rintro rfl
    exact counted_counted t

/-- There is one first copy with an id. -/
theorem FirstCopy.unique {segments : List Segment} {a b : Segment × Nat}
    (ha : FirstCopy segments a) (hb : FirstCopy segments b) (h : a.1.id = b.1.id) : a = b := by
  rcases ha.2 b hb.1 h.symm with hba | hab
  · exact hba.symm
  · exact (hb.2 a ha.1 h).resolve_right (before_asymm hab)

/-- A segment counts when it is a first copy. -/
theorem mem_counted_iff {t : Trace} {s : Segment} :
    s ∈ Layout.counted t ↔ ∃ i, FirstCopy t.segments (s, i) := by
  obtain ⟨copies, -, hcopies, hcounted⟩ := counted_counted t
  rw [hcounted, List.mem_map]
  constructor
  · rintro ⟨a, ha, rfl⟩
    exact ⟨a.2, (hcopies a).mp ha⟩
  · rintro ⟨i, hi⟩
    exact ⟨(s, i), (hcopies _).mpr hi, rfl⟩

/-! ### The root -/

theorem precedes_iff {s t : Segment} : Layout.precedes s t = true ↔ Precedes s t := by
  unfold Layout.precedes Precedes
  rw [Bool.or_eq_true, Bool.and_eq_true, decide_eq_true_eq, decide_eq_true_eq, beq_iff_eq]

theorem precedes_trans {s t u : Segment} (h : Precedes s t) (h' : Precedes t u) : Precedes s u := by
  rcases h with h | ⟨h, hid⟩ <;> rcases h' with h' | ⟨h', hid'⟩
  · exact .inl (Nat.lt_trans h h')
  · exact .inl (h' ▸ h)
  · exact .inl (h ▸ h')
  · exact .inr ⟨h.trans h', String.lt_trans hid hid'⟩

theorem precedes_asymm {s t : Segment} (h : Precedes s t) : ¬ Precedes t s := by
  intro h'
  rcases precedes_trans h h' with hlt | ⟨-, hid⟩
  · exact Nat.lt_irrefl _ hlt
  · exact String.lt_irrefl _ hid

/-- Of two segments with different ids one precedes the other. -/
theorem precedes_total {s t : Segment} (h : s.id ≠ t.id) : Precedes s t ∨ Precedes t s := by
  rcases Nat.lt_trichotomy s.start.toNat t.start.toNat with hlt | heq | hgt
  · exact .inl (.inl hlt)
  · have hstart := start_eq_of_le (Nat.le_of_eq heq) (Nat.le_of_eq heq.symm)
    by_cases hid : s.id < t.id
    · exact .inl (.inr ⟨hstart, hid⟩)
    · have hge := String.not_lt.mp hid
      have hnot : ¬ s.id ≤ t.id := fun hle => h (String.le_antisymm hle hge)
      exact .inr (.inr ⟨hstart.symm, Decidable.not_not.mp fun hlt => hnot (String.not_lt.mp hlt)⟩)
  · exact .inr (.inl hgt)

theorem earliest?_eq_none {segments : List Segment} :
    Layout.earliest? segments = none ↔ segments = [] := by
  cases segments with
  | nil => exact iff_of_true rfl rfl
  | cons s rest =>
      rw [Layout.earliest?]
      cases Layout.earliest? rest with
      | none => simp
      | some t => simp only; split <;> simp

/-- The segment that a layout takes as root comes before all others. -/
theorem earliest?_first :
    ∀ {segments : List Segment} {root : Segment}, (segments.map Segment.id).Nodup →
      Layout.earliest? segments = some root → ∀ s ∈ segments, s = root ∨ Precedes root s := by
  intro segments
  induction segments with
  | nil =>
      intro root _ h
      cases h
  | cons s rest ih =>
      intro root hnodup h u hu
      rw [List.map_cons, List.nodup_cons] at hnodup
      obtain ⟨hs, hrest⟩ := hnodup
      rw [Layout.earliest?] at h
      cases hr : Layout.earliest? rest with
      | none =>
          obtain rfl := earliest?_eq_none.mp hr
          simp only [hr, Option.some.injEq] at h
          exact .inl ((List.mem_singleton.mp hu).trans h)
      | some t =>
          simp only [hr] at h
          have hfirst := ih hrest hr
          have hne : t.id ≠ s.id := by
            intro hid
            exact hs (hid ▸ List.mem_map_of_mem (Layout.mem_of_earliest? hr))
          split at h
          · next hts =>
              cases h
              rcases List.mem_cons.mp hu with rfl | hu
              · exact .inr (precedes_iff.mp hts)
              · exact hfirst u hu
          · next hts =>
              cases h
              -- ids differ, so that the other one precedes
              have hst := (precedes_total hne).resolve_left fun h => hts (precedes_iff.mpr h)
              rcases List.mem_cons.mp hu with rfl | hu
              · exact .inl rfl
              · rcases hfirst u hu with rfl | htu
                · exact .inr hst
                · exact .inr (precedes_trans hst htu)

/-- The candidates of a layout are the segments that may be the root. -/
theorem mem_candidates {t : Trace} {designated : Option String} {s : Segment} :
    s ∈ (Layout.counted t).filter (Layout.isCandidate designated) ↔
      MayBeRoot (Layout.counted t) designated s := by
  unfold MayBeRoot Layout.isCandidate
  rw [List.mem_filter]
  refine and_congr_right fun _ => ?_
  cases s.parent with
  | none => simp
  | some parent =>
      simp only [beq_iff_eq, reduceCtorEq, false_or]
      exact eq_comm

theorem nodup_candidates (t : Trace) (designated : Option String) :
    (((Layout.counted t).filter (Layout.isCandidate designated)).map Segment.id).Nodup :=
  (List.filter_sublist.map _).nodup (Layout.nodup_ids_firstCopies _)

/-- The outline of a trace has the segments that its layout counts, and the root of its layout. -/
theorem outline_iff {t : Trace} {designated : Option String} {counted : List Segment}
    {root : Segment} :
    Outline t designated counted root ↔ counted = Layout.counted t ∧
      Layout.earliest? ((Layout.counted t).filter (Layout.isCandidate designated)) = some root := by
  constructor
  · intro h
    obtain rfl := counted_iff.mp h.counts
    refine ⟨rfl, ?_⟩
    cases hr : Layout.earliest? ((Layout.counted t).filter (Layout.isCandidate designated)) with
    | none =>
        have hroot := mem_candidates.mpr h.candidate
        rw [earliest?_eq_none.mp hr] at hroot
        cases hroot
    | some r =>
        have hfirst := earliest?_first (nodup_candidates t designated) hr root
          (mem_candidates.mpr h.candidate)
        rcases h.first r (mem_candidates.mp (Layout.mem_of_earliest? hr)) with rfl | hprecedes
        · rfl
        · rcases hfirst with rfl | hprecedes'
          · rfl
          · exact absurd hprecedes (precedes_asymm hprecedes')
  · rintro ⟨rfl, hr⟩
    refine ⟨counted_counted t, mem_candidates.mp (Layout.mem_of_earliest? hr), fun s hs => ?_⟩
    exact earliest?_first (nodup_candidates t designated) hr s (mem_candidates.mpr hs)

/-! ### What a parent id means -/

/-- Of the segments that count, each has an id of its own. -/
theorem eq_of_id {t : Trace} {s u : Segment} (hs : s ∈ Layout.counted t)
    (hu : u ∈ Layout.counted t) (h : s.id = u.id) : s = u :=
  List.inj_on_of_nodup_map (Layout.nodup_ids_firstCopies _) hs hu h

theorem Means.mem {counted : List Segment} {parent : String} {s : Segment}
    (h : Means counted parent s) : s ∈ counted := by
  rcases h with ⟨hs, -⟩ | ⟨-, front, back, rfl, -⟩
  · exact hs
  · exact List.mem_append_right _ List.mem_cons_self

/-- A parent id means the segment that it is resolved to. -/
theorem means_iff {t : Trace} {parent : String} {s : Segment} :
    Means (Layout.counted t) parent s ↔ Layout.resolve? (Layout.counted t) parent = some s := by
  unfold Means Layout.resolve?
  cases hf : (Layout.counted t).find? fun u => u.id == parent with
  | some u =>
      have hu := List.mem_of_find?_eq_some hf
      have hid : u.id = parent := by simpa using List.find?_some hf
      rw [Option.orElse_some, Option.some.injEq]
      constructor
      · rintro (⟨hs, hparent⟩ | ⟨hnone, -⟩)
        · exact eq_of_id hu hs (hid.trans hparent.symm)
        · exact absurd hid (hnone u hu)
      · rintro rfl
        exact .inl ⟨hu, hid⟩
  | none =>
      have hnone : ∀ u ∈ Layout.counted t, u.id ≠ parent := by
        simpa using List.find?_eq_none.mp hf
      rw [Option.orElse_none, List.find?_eq_some_iff_append, ← nests_iff]
      constructor
      · rintro (⟨hs, hparent⟩ | ⟨-, front, back, hsplit, hnests, hfront⟩)
        · exact absurd hparent (hnone s hs)
        · refine ⟨hnests, front, back, hsplit, fun u hu => ?_⟩
          rw [Bool.not_eq_true', ← Bool.not_eq_true, ← nests_iff]
          exact hfront u hu
      · rintro ⟨hnests, front, back, hsplit, hfront⟩
        refine .inr ⟨hnone, front, back, hsplit, hnests, fun u hu => ?_⟩
        rw [nests_iff, Bool.not_eq_true, ← Bool.not_eq_true']
        exact hfront u hu

/-- A parent id that is not resolved is no id of any segment that counts, nor nested in one. -/
theorem resolve?_eq_none {counted : List Segment} {parent : String} :
    Layout.resolve? counted parent = none ↔ ∀ u ∈ counted, u.id ≠ parent ∧ ¬ Nests u parent := by
  have horElse : ∀ x y : Option Segment, (x.orElse fun _ => y) = none ↔ x = none ∧ y = none := by
    intro x y
    cases x <;> simp
  unfold Layout.resolve?
  rw [horElse, List.find?_eq_none, List.find?_eq_none]
  simp only [← nests_iff, beq_iff_eq]
  exact ⟨fun h u hu => ⟨h.1 u hu, h.2 u hu⟩,
    fun h => ⟨fun u hu => (h u hu).1, fun u hu => (h u hu).2⟩⟩

/-! ### Orphans -/

section

variable {t : Trace} {designated : Option String} {policy : OrphanPolicy} {root s : Segment}

/-- What becomes of an orphan. -/
theorem owner?_orphan {parent : String}
    (h : Orphan (Layout.counted t) root designated s parent) :
    Layout.owner? t.id designated policy (Layout.counted t) s =
      match policy with
      | .prune => .ok none
      | .retry => .error (.parentMissing t.id s.id parent)
      | .fail => .error (.orphaned t.id s.id parent) := by
  obtain ⟨-, hparent, hdesignated, hnone⟩ := h
  unfold Layout.owner?
  rw [hparent]
  cases policy <;> simp only [resolve?_eq_none.mpr hnone, if_neg hdesignated]

/-- Only orphans are refused. -/
theorem orphan_of_owner? {e : Failure} (hs : s ≠ root)
    (h : Layout.owner? t.id designated policy (Layout.counted t) s = .error e) :
    ∃ parent, Orphan (Layout.counted t) root designated s parent ∧
      ((policy = .retry ∧ e = .parentMissing t.id s.id parent) ∨
        (policy = .fail ∧ e = .orphaned t.id s.id parent)) := by
  obtain ⟨parent, hparent, hnone, hdesignated, he⟩ := Layout.owner?_error h
  exact ⟨parent, ⟨hs, hparent, hdesignated, resolve?_eq_none.mp hnone⟩, he⟩

/-- A segment that is no orphan is not refused. -/
theorem owner?_of_not_orphan (hs : s ≠ root)
    (h : ∀ parent, ¬ Orphan (Layout.counted t) root designated s parent) :
    ∃ o, Layout.owner? t.id designated policy (Layout.counted t) s = .ok o := by
  cases ho : Layout.owner? t.id designated policy (Layout.counted t) s with
  | ok o => exact ⟨o, rfl⟩
  | error e =>
      obtain ⟨parent, horphan, -⟩ := orphan_of_owner? hs ho
      exact absurd horphan (h parent)

/-- Unless orphans are left out, what is not refused is no orphan. -/
theorem not_orphan_of_owner? {parent : String} {o : Option String} (hpolicy : policy ≠ .prune)
    (h : Layout.owner? t.id designated policy (Layout.counted t) s = .ok o) :
    ¬ Orphan (Layout.counted t) root designated s parent := by
  intro horphan
  rw [owner?_orphan horphan] at h
  cases policy with
  | prune => exact hpolicy rfl
  | retry => cases h
  | fail => cases h

theorem mem_others (hroot : root ∈ Layout.counted t) :
    s ∈ (Layout.counted t).filter (fun u => u.id ≠ root.id) ↔ s ∈ Layout.counted t ∧ s ≠ root := by
  rw [List.mem_filter]
  refine and_congr_right fun hs => ?_
  rw [decide_eq_true_eq]
  exact not_congr ⟨eq_of_id hs hroot, congrArg Segment.id⟩

/-- A trace with an orphan has no layout, unless orphans are left out; the failure is that of the
first orphan. -/
theorem ofTrace_firstOrphan {counted : List Segment} {parent : String} {e : Failure}
    (houtline : Outline t designated counted root)
    (h : FirstOrphan counted root designated s parent)
    (he : Layout.owner? t.id designated policy (Layout.counted t) s = .error e) :
    Layout.ofTrace t designated policy = .error e := by
  have hroot := houtline.candidate.1
  obtain ⟨rfl, hr⟩ := outline_iff.mp houtline
  obtain ⟨⟨hs, -⟩, front, back, hsplit, hfront⟩ := h
  have hmem : s ∈ Layout.counted t := by
    rw [hsplit]
    exact List.mem_append_right _ List.mem_cons_self
  have hid := (List.mem_filter.mp ((mem_others hroot).mpr ⟨hmem, hs⟩)).2
  have hothers : ((Layout.counted t).filter fun u => u.id ≠ root.id)
      = (front.filter fun u => u.id ≠ root.id) ++ s :: back.filter fun u => u.id ≠ root.id := by
    conv_lhs => rw [hsplit]
    rw [List.filter_append]
    exact congrArg _ (List.filter_cons_of_pos hid)
  rw [Layout.ofTrace_eq, hr]
  dsimp only
  rw [hothers, Layout.attach_append_cons _ (fun u hu => ?_) he]
  obtain ⟨hu, hne⟩ := List.mem_filter.mp hu
  refine owner?_of_not_orphan ?_ (hfront u hu)
  rintro rfl
  simp at hne

/-- A trace without orphans has a layout, and so has every trace if orphans are left out. -/
theorem ofTrace_outline {counted : List Segment} (houtline : Outline t designated counted root)
    (h : policy = .prune ∨ ∀ s ∈ counted, ∀ parent, ¬ Orphan counted root designated s parent) :
    ∃ l, Layout.ofTrace t designated policy = .ok l ∧ l.root = root := by
  have hroot := houtline.candidate.1
  obtain ⟨rfl, hr⟩ := outline_iff.mp houtline
  rw [Layout.ofTrace_eq, hr]
  simp only
  cases ha : Layout.attach t.id designated policy (Layout.counted t)
      ((Layout.counted t).filter fun s => s.id ≠ root.id) with
  | ok attached => exact ⟨⟨root, attached⟩, rfl, rfl⟩
  | error e =>
      obtain ⟨before, s, after, hsplit, -, ho⟩ := Layout.attach_error ha
      obtain ⟨hs, hne⟩ := (mem_others hroot).mp
        (hsplit ▸ List.mem_append_right _ List.mem_cons_self)
      obtain ⟨parent, horphan, hkind⟩ := orphan_of_owner? hne ho
      rcases h with rfl | hnone
      · rcases hkind with ⟨hp, -⟩ | ⟨hp, -⟩ <;> cases hp
      · exact absurd horphan (hnone s hs parent)

/-- What a layout fails for, if its trace has a root. -/
theorem enters_of_attach_error {e : Failure}
    (houtline : Outline t designated (Layout.counted t) root)
    (h : Layout.attach t.id designated policy (Layout.counted t)
      ((Layout.counted t).filter fun s => s.id ≠ root.id) = .error e) :
    Enters policy t designated (.error e) := by
  have hroot := houtline.candidate.1
  obtain ⟨before, s, after, hsplit, hbefore, ho⟩ := Layout.attach_error h
  obtain ⟨hs, hne⟩ := (mem_others hroot).mp (hsplit ▸ List.mem_append_right _ List.mem_cons_self)
  obtain ⟨parent, horphan, hkind⟩ := orphan_of_owner? hne ho
  have hfirst : FirstOrphan (Layout.counted t) root designated s parent := by
    have hpolicy : policy ≠ .prune := by
      rintro rfl
      rcases hkind with ⟨hp, -⟩ | ⟨hp, -⟩ <;> cases hp
    -- of the segments before the orphan, the root was filtered out and the others were attached
    obtain ⟨front, others, hcounted, hfront, hothers⟩ := List.filter_eq_append_iff.mp hsplit
    obtain ⟨skipped, back, rfl, hskipped, -, -⟩ := List.filter_eq_cons_iff.mp hothers
    refine ⟨horphan, front ++ skipped, back, by rw [hcounted, List.append_assoc], ?_⟩
    intro u hu p hu'
    rcases List.mem_append.mp hu with hu | hu
    · have hmem : u ∈ Layout.counted t := by
        rw [hcounted]
        exact List.mem_append_left _ hu
      have hb : u ∈ before := by
        rw [← hfront]
        exact List.mem_filter.mpr ⟨hu, (List.mem_filter.mp
          ((mem_others hroot).mpr ⟨hmem, hu'.1⟩)).2⟩
      obtain ⟨o, hok⟩ := hbefore u hb
      exact not_orphan_of_owner? hpolicy hok hu'
    · have hmem : u ∈ Layout.counted t := by
        rw [hcounted]
        exact List.mem_append_right _ (List.mem_append_left _ hu)
      exact hskipped u hu (List.mem_filter.mp ((mem_others hroot).mpr ⟨hmem, hu'.1⟩)).2
  rcases hkind with ⟨hpolicy, rfl⟩ | ⟨hpolicy, rfl⟩
  · exact .awaited houtline hfirst hpolicy
  · exact .orphaned houtline hfirst hpolicy

/-- A trace is entered at the root of its layout, and it is not if it has none. -/
theorem enters_iff {r : Except Failure Segment} :
    Enters policy t designated r ↔ (Layout.ofTrace t designated policy).map Layout.root = r := by
  constructor
  · intro h
    cases h with
    | rootless hcounted hnone =>
        obtain rfl := counted_iff.mp hcounted
        have hcandidates : (Layout.counted t).filter (Layout.isCandidate designated) = [] :=
          List.eq_nil_iff_forall_not_mem.mpr fun s hs => hnone s (mem_candidates.mp hs)
        rw [Layout.ofTrace_eq, earliest?_eq_none.mpr hcandidates]
        rfl
    | awaited houtline hfirst hpolicy =>
        -- only the kind of the failure depends on the policy
        subst hpolicy
        obtain ⟨rfl, -⟩ := outline_iff.mp houtline
        rw [ofTrace_firstOrphan houtline hfirst (owner?_orphan hfirst.1)]
        rfl
    | orphaned houtline hfirst hpolicy =>
        subst hpolicy
        obtain ⟨rfl, -⟩ := outline_iff.mp houtline
        rw [ofTrace_firstOrphan houtline hfirst (owner?_orphan hfirst.1)]
        rfl
    | root houtline hpolicy =>
        obtain ⟨l, hl, rfl⟩ := ofTrace_outline houtline hpolicy
        rw [hl]
        rfl
  · rintro rfl
    rw [Layout.ofTrace_eq]
    cases hr : Layout.earliest? ((Layout.counted t).filter (Layout.isCandidate designated)) with
    | none =>
        refine .rootless (counted_counted t) fun s hs => ?_
        have hmem := mem_candidates.mpr hs
        rw [earliest?_eq_none.mp hr] at hmem
        cases hmem
    | some root =>
        have houtline : Outline t designated (Layout.counted t) root := outline_iff.mpr ⟨rfl, hr⟩
        simp only
        cases ha : Layout.attach t.id designated policy (Layout.counted t)
            ((Layout.counted t).filter fun s => s.id ≠ root.id) with
        | error e => exact enters_of_attach_error houtline ha
        | ok attached =>
            -- an orphan would have been refused when the others were attached
            refine .root houtline (or_iff_not_imp_left.mpr fun hpolicy s hs parent horphan => ?_)
            obtain ⟨o, ho⟩ := (Layout.attach_ok ha).1 s
              ((mem_others houtline.candidate.1).mpr ⟨hs, horphan.1⟩)
            exact not_orphan_of_owner? hpolicy ho horphan

/-- A trace has one root, or one reason why it has none. -/
theorem Enters.unique {r r' : Except Failure Segment} (h : Enters policy t designated r)
    (h' : Enters policy t designated r') : r = r' :=
  (enters_iff.mp h).symm.trans (enters_iff.mp h')

/-- A trace is entered at a segment when its layout has this root. -/
theorem enters_ok_iff : Enters policy t designated (.ok root) ↔
    ∃ l, Layout.ofTrace t designated policy = .ok l ∧ l.root = root := by
  rw [enters_iff]
  cases Layout.ofTrace t designated policy with
  | error e => simp [Except.map]
  | ok l => simp [Except.map]

/-- A trace is not entered for the reason for which it has no layout. -/
theorem enters_error_iff {e : Failure} : Enters policy t designated (.error e) ↔
    Layout.ofTrace t designated policy = .error e := by
  rw [enters_iff]
  cases Layout.ofTrace t designated policy with
  | error e => simp [Except.map]
  | ok l => simp [Except.map]

/-! ### What hangs below a segment -/

/-- A segment is put below the one that its parent id means. -/
theorem ownerOf_eq_some_iff {c : Segment} (hs : s ∈ Layout.counted t) (hc : c ∈ Layout.counted t) :
    Layout.ownerOf t.id designated policy (Layout.counted t) c = some s.id ↔
      c ≠ s ∧ ∃ parent, c.parent = some parent ∧ Means (Layout.counted t) parent s := by
  rw [Layout.ownerOf_eq_some, Layout.owner?_eq_some]
  constructor
  · rintro ⟨parent, u, hparent, hu, hne, hid⟩
    have hmeans := means_iff.mpr hu
    obtain rfl := eq_of_id hmeans.mem hs hid
    exact ⟨fun hcu => hne (congrArg Segment.id hcu.symm), parent, hparent, hmeans⟩
  · rintro ⟨hne, parent, hparent, hmeans⟩
    exact ⟨parent, s, hparent, means_iff.mp hmeans, fun hid => hne (eq_of_id hc hs hid.symm), rfl⟩

/-- What a layout attaches to a segment, picked from the segments that count. -/
theorem looseBelow_attached {l : Layout} (h : Layout.ofTrace t designated policy = .ok l)
    (id : String) :
    Layout.looseBelow l.attached id = ((Layout.counted t).filter fun s => s.id ≠ l.root.id).filter
      fun s => Layout.ownerOf t.id designated policy (Layout.counted t) s == some id := by
  rw [(Layout.attach_ok (Layout.ofTrace_ok h).2).2]
  unfold Layout.looseBelow
  generalize (Layout.counted t).filter (fun s => s.id ≠ l.root.id) = others
  rw [List.filter_filterMap, List.map_filterMap, ← List.filterMap_eq_filter]
  refine List.filterMap_congr fun s _ => ?_
  cases ho : Layout.ownerOf t.id designated policy (Layout.counted t) s with
  | none => simp [Option.guard, ho]
  | some o => by_cases hid : o = id <;> simp [Option.guard, Option.filter, ho, hid]

end

/-- Two parts of a list without repetitions are the same, in the same order, if they have the same
members. -/
theorem sublist_unique {α : Type} {xs : List α} (hnodup : xs.Nodup) :
    ∀ {ys zs : List α}, ys.Sublist xs → zs.Sublist xs → (∀ x, x ∈ ys ↔ x ∈ zs) → ys = zs := by
  induction xs with
  | nil =>
      intro ys zs hys hzs _
      rw [List.sublist_nil.mp hys, List.sublist_nil.mp hzs]
  | cons a rest ih =>
      obtain ⟨ha, hrest⟩ := List.nodup_cons.mp hnodup
      intro ys zs hys hzs hmem
      cases hys with
      | cons _ hys =>
          cases hzs with
          | cons _ hzs => exact ih hrest hys hzs hmem
          | cons_cons _ hzs => exact absurd (hys.subset ((hmem a).mpr List.mem_cons_self)) ha
      | cons_cons _ hys =>
          cases hzs with
          | cons _ hzs => exact absurd (hzs.subset ((hmem a).mp List.mem_cons_self)) ha
          | cons_cons _ hzs =>
              refine congrArg (a :: ·) (ih hrest hys hzs fun x => ?_)
              by_cases hx : x = a
              · subst hx
                exact iff_of_false (fun h => ha (hys.subset h)) fun h => ha (hzs.subset h)
              · simpa [hx] using hmem x

/-- Two lists whose items go to parts of a list without repetitions are the same if they have the
same members. -/
theorem eq_of_map_sublist {α β : Type} {f : α → β} {zs : List β} (hnodup : zs.Nodup)
    {xs ys : List α} (hxs : (xs.map f).Sublist zs) (hys : (ys.map f).Sublist zs)
    (hmem : ∀ x, x ∈ xs ↔ x ∈ ys) : xs = ys := by
  have hmap : xs.map f = ys.map f := by
    refine sublist_unique hnodup hxs hys fun b => ?_
    simp only [List.mem_map, hmem]
  have hinj := List.inj_on_of_nodup_map (hys.nodup hnodup)
  refine List.ext_getElem (by simpa using congrArg List.length hmap) fun i hi hi' => ?_
  refine hinj ((hmem _).mp (List.getElem_mem hi)) (List.getElem_mem hi') ?_
  have hi'' : i < (xs.map f).length := by rwa [List.length_map]
  simpa only [List.getElem_map] using List.getElem_of_eq hmap hi''

/-- One list of segments hangs below a segment, in one order. -/
theorem Hanging.unique {t : Trace} {designated : Option String} {s : Segment}
    {below below' : List Segment} (h : Hanging t designated s below)
    (h' : Hanging t designated s below') : below = below' := by
  obtain ⟨counted, root, houtline, hsub, hmem⟩ := h
  obtain ⟨counted', root', houtline', hsub', hmem'⟩ := h'
  obtain ⟨rfl, hr⟩ := outline_iff.mp houtline
  obtain ⟨rfl, hr'⟩ := outline_iff.mp houtline'
  obtain rfl := Option.some.inj (hr.symm.trans hr')
  exact sublist_unique (Layout.nodup_counted t) hsub hsub' fun c => (hmem c).trans (hmem' c).symm

section

variable {t : Trace} {designated : Option String} {policy : OrphanPolicy} {l : Layout} {s : Segment}

/-- A trace with a layout has an outline with the same root. -/
theorem outline_of_ofTrace (h : Layout.ofTrace t designated policy = .ok l) :
    Outline t designated (Layout.counted t) l.root :=
  outline_iff.mpr ⟨rfl, (Layout.ofTrace_ok h).1⟩

/-- Which segments the layout attaches to the id of one that counts. -/
theorem mem_looseBelow (h : Layout.ofTrace t designated policy = .ok l)
    (hs : s ∈ Layout.counted t) {c : Segment} :
    c ∈ Layout.looseBelow l.attached s.id ↔
      c ∈ Layout.counted t ∧ c ≠ l.root ∧ c ≠ s ∧ ∃ parent, c.parent = some parent ∧
        Means (Layout.counted t) parent s := by
  rw [looseBelow_attached h, List.mem_filter, mem_others (Layout.root_mem_counted h), beq_iff_eq,
    and_assoc]
  exact and_congr_right fun hc => and_congr_right fun _ => ownerOf_eq_some_iff hs hc

/-- Below a segment hang those that the layout attaches to it. -/
theorem hanging_iff {below : List Segment} (h : Layout.ofTrace t designated policy = .ok l)
    (hs : s ∈ Layout.counted t) :
    Hanging t designated s below ↔ below = Layout.looseBelow l.attached s.id := by
  have hsub : (Layout.looseBelow l.attached s.id).Sublist (Layout.counted t) := by
    rw [looseBelow_attached h]
    exact List.filter_sublist.trans List.filter_sublist
  have hattached : Hanging t designated s (Layout.looseBelow l.attached s.id) :=
    ⟨_, _, outline_of_ofTrace h, hsub, fun _ => mem_looseBelow h hs⟩
  constructor
  · exact fun hbelow => hbelow.unique hattached
  · rintro rfl
    exact hattached

end

end Reference

end CausalTrace
