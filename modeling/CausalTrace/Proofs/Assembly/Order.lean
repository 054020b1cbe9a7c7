import CausalTrace.Proofs.Assembly.Coupling
import CausalTrace.Proofs.Assembly.Outline
import CausalTrace.Proofs.Assembly.WellFormed
import CausalTrace.Proofs.Backend.Reordering

/-!
# Trees and the order of segments

A layout consults the segments of a trace in the order of their start times.  Where these are
distinct, the order in which a backend lists the segments is of no consequence, for a layout or for
a tree.  The root is the same even where start times are not distinct, as long as ids are.

## Main definitions

* `Layout.root?` — the root of a trace, whatever hangs below it

## Main statements

* `Layout.root?_reordered` — segments with distinct ids have one root in every order
* `Layout.ofTrace_reordered` — segments with distinct start times have one layout in every order
* `Tree.build_reordered` — trees do not depend on the order in which segments are listed

## Design notes

A stable sort keeps ties in the order given, so that ties are the only way in which the order can be
told from a sorted list: without them, two sorts of the same segments are one list.
-/

namespace CausalTrace

namespace Layout

/-! ### Segments that start at different times -/

theorem pairwise_inStartOrder (segments : List Segment) :
    (inStartOrder segments).Pairwise fun s t => s.start ≤ t.start :=
  (List.pairwise_mergeSort Reference.startsBy_trans Reference.startsBy_total segments).imp
    fun h => of_decide_eq_true h

/-- Segments that start at different times have one order. -/
theorem inStartOrder_perm {segments segments' : List Segment} (h : segments'.Perm segments)
    (hstart : (segments.map Segment.start).Nodup) :
    inStartOrder segments' = inStartOrder segments := by
  have hperm : (inStartOrder segments').Perm (inStartOrder segments) :=
    (List.mergeSort_perm _ _).trans (h.trans (List.mergeSort_perm _ _).symm)
  refine hperm.eq_of_pairwise ?_ (pairwise_inStartOrder _) (pairwise_inStartOrder _)
  intro s t hs ht hst hts
  refine List.inj_on_of_nodup_map hstart (h.mem_iff.mp (List.mem_mergeSort.mp hs))
    (List.mem_mergeSort.mp ht) (Reference.start_eq_of_le hst hts)

/-- Segments that start at different times have one layout, in whichever order they are listed. -/
theorem ofTrace_reordered {t t' : Trace} (h : t.Reordered t') (hstart : t.Staggered)
    (designated : Option String) (policy : OrphanPolicy) :
    ofTrace t' designated policy = ofTrace t designated policy := by
  unfold ofTrace
  rw [inStartOrder_perm h.segments hstart, h.id]

/-! ### The root -/

/-- The root of a trace, whatever hangs below it. -/
def root? (t : Trace) (designated : Option String) : Option Segment :=
  earliest? ((counted t).filter (isCandidate designated))

variable {designated : Option String} {policy : OrphanPolicy}

/-- The root of a layout is the root of its trace. -/
theorem root?_of_ofTrace {t : Trace} {layout : Layout}
    (h : ofTrace t designated policy = .ok layout) : root? t designated = some layout.root :=
  (ofTrace_ok h).1

/-- A trace has no layout for want of a root if there is no root. -/
theorem ofTrace_eq_rootNotFound {t : Trace} :
    ofTrace t designated policy = .error (.rootNotFound t.id) ↔ root? t designated = none := by
  unfold root?
  rw [ofTrace_eq]
  cases earliest? ((counted t).filter (isCandidate designated)) with
  | none => exact iff_of_true rfl rfl
  | some root =>
      refine iff_of_false (fun h => ?_) (Option.some_ne_none root)
      cases ha : attach t.id designated policy (counted t)
          ((counted t).filter fun s => s.id ≠ root.id) with
      | ok attached => simp only [ha, reduceCtorEq] at h
      | error e =>
          -- what is attached fails for a segment whose parent is missing, and for nothing else
          simp only [ha, Except.error.injEq] at h
          obtain ⟨_, s, _, -, -, ho⟩ := attach_error ha
          obtain ⟨p, -, -, -, ⟨-, rfl⟩ | ⟨-, rfl⟩⟩ := owner?_error ho
          · cases h
          · cases h

/-- The earliest of segments with distinct ids is the same in every order. -/
theorem earliest?_perm {segments segments' : List Segment} (h : segments'.Perm segments)
    (hid : (segments.map Segment.id).Nodup) : earliest? segments' = earliest? segments := by
  have hid' : (segments'.map Segment.id).Nodup := (h.map Segment.id).nodup_iff.mpr hid
  cases hr : earliest? segments with
  | none =>
      obtain rfl := Reference.earliest?_eq_none.mp hr
      rw [h.eq_nil]
      rfl
  | some root =>
      have hroot := h.mem_iff.mpr (mem_of_earliest? hr)
      cases hr' : earliest? segments' with
      | none =>
          rw [Reference.earliest?_eq_none.mp hr'] at hroot
          cases hroot
      | some root' =>
          rcases Reference.earliest?_first hid' hr' root hroot with rfl | hprecedes
          · rfl
          · rcases Reference.earliest?_first hid hr root'
              (h.mem_iff.mp (mem_of_earliest? hr')) with rfl | hprecedes'
            · rfl
            · exact absurd hprecedes (Reference.precedes_asymm hprecedes')

/-- Of segments with distinct ids every one counts. -/
theorem firstCopies_of_nodup {segments : List Segment} (h : (segments.map Segment.id).Nodup) :
    firstCopies segments = segments := by
  induction segments with
  | nil => rfl
  | cons s rest ih =>
      rw [List.map_cons, List.nodup_cons] at h
      rw [firstCopies, ih h.2, List.filter_eq_self.mpr]
      intro t ht
      rw [decide_eq_true_eq]
      exact fun hid => h.1 (hid ▸ List.mem_map_of_mem ht)

/-- Of segments with distinct ids the same count in every order. -/
theorem counted_perm {t : Trace} (h : (t.segments.map Segment.id).Nodup) :
    (counted t).Perm t.segments := by
  have hsorted : (inStartOrder t.segments).Perm t.segments := List.mergeSort_perm _ _
  unfold counted
  rw [firstCopies_of_nodup ((hsorted.map Segment.id).nodup_iff.mpr h)]
  exact hsorted

/-- A trace of segments with distinct ids has one root, in whichever order they are listed. -/
theorem root?_reordered {t t' : Trace} (h : t.Reordered t')
    (hid : (t.segments.map Segment.id).Nodup) : root? t' designated = root? t designated := by
  have hcounted := counted_perm hid
  have hcounted' := counted_perm ((h.segments.map Segment.id).nodup_iff.mpr hid)
  have hperm : (counted t').Perm (counted t) := hcounted'.trans (h.segments.trans hcounted.symm)
  refine earliest?_perm (hperm.filter _) (List.filter_sublist.map Segment.id |>.nodup ?_)
  exact (hcounted.map Segment.id).nodup_iff.mpr hid

end Layout

/-! ### A store and its documents in another order -/

namespace Store.Sample

def documentS : Document := ⟨"s", "\x7b\"id\":\"s\"\x7d"⟩

def documentT : Document :=
  ⟨"t", "\x7b\"id\":\"t\",\"parent_id\":\"s\",\"start_time\":1\x7d"⟩

/-- A store with a trace of two segments, of which the second starts a second later. -/
def staggered : Store := ofRecords [⟨"1-s", none, none, [documentS, documentT]⟩]

/-- The store with the documents in the other order. -/
def turned : Store := ofRecords [⟨"1-s", none, none, [documentT, documentS]⟩]

/-- What the first document says. -/
def contentS : WireSegment := { id := some "s" }

/-- What the second document says. -/
def contentT : WireSegment := { id := some "t", parent := some "s", start := some 1.0 }

def segmentS : Segment := contentS.segment "s" ⟨"1-s"⟩ []

def segmentT : Segment := contentT.segment "t" ⟨"1-s"⟩ []

theorem sheet_documentS : Json.Sheet.ofText documentS.text
    = ⟨.object [(.text (some "id"), .string (some "s"))] .closed, false⟩ := by
  unfold documentS Json.Sheet.ofText
  simp only [String.reduceToList]
  cbv

theorem sheet_documentT : Json.Sheet.ofText documentT.text
    = ⟨.object [(.text (some "id"), .string (some "t")),
        (.text (some "parent_id"), .string (some "s")),
        (.text (some "start_time"), .number (some (.int 1)))] .closed, false⟩ := by
  unfold documentT Json.Sheet.ofText
  simp only [String.reduceToList]
  cbv

theorem staggered_record :
    (⟨"1-s", none, some false, [documentS, documentT]⟩ : TraceRecord).Staggered := by
  have hs := Document.segment_eq (w := contentS) sheet_documentS rfl ⟨"1-s"⟩
  have ht := Document.segment_eq (w := contentT) sheet_documentT rfl ⟨"1-s"⟩
  have hsegments : [documentS.segment ⟨"1-s"⟩, documentT.segment ⟨"1-s"⟩]
      = [segmentS, segmentT].map .ok := by
    rw [hs, ht]
    rfl
  refine ⟨_, TraceRecord.trace_eq hsegments, ?_⟩
  have hstart : [segmentS, segmentT].map Segment.start = [⟨0⟩, ⟨1000000000⟩] := by decide +kernel
  unfold Trace.Staggered
  rw [hstart]
  decide

theorem reordered_staggered : staggered.Reordered turned where
  records id := by
    have hrecord : ∀ documents : List Document,
        (ofRecords [⟨"1-s", none, none, documents⟩]).record? id
          = if ⟨"1-s"⟩ = id then some ⟨id.text, none, some false, documents⟩ else none := by
      intro documents
      unfold record? ofRecords insert empty
      simp only [List.foldl_cons, List.foldl_nil, Table.get?_insert, Table.get?_nil]
      split <;> rfl
    unfold staggered turned
    rw [hrecord, hrecord]
    split
    · next hid =>
        subst hid
        exact .some ⟨⟨rfl, rfl, rfl, List.Perm.swap _ _ _⟩, staggered_record⟩
    · exact .none
  deferrals := rfl
  failure := rfl
  requests := rfl

/-- A trace with two segments that start at the same time and may both be the root. -/
def tied : Trace := ⟨⟨"1-a"⟩, none, false, [segment "1-a" "c" none "1-x", segmentA]⟩

end Store.Sample

/-! ### Trees -/

/-- The order in which segments are listed is of no consequence.  If their ids are distinct, the
root is the same in every order; and from backends that hand the same documents out, in any order,
the same becomes of every header, if all documents can be read and segments of one trace start at
different times. -/
theorem Tree.build_reordered :
    (∀ {t t' : Trace}, t.Reordered t' → (t.segments.map Segment.id).Nodup →
      ∀ designated, Layout.root? t' designated = Layout.root? t designated ∧
        ∀ policy,
          (Layout.ofTrace t' designated policy = .error (.rootNotFound t'.id) ↔
            Layout.ofTrace t designated policy = .error (.rootNotFound t.id)) ∧
          ∀ layout layout', Layout.ofTrace t designated policy = .ok layout →
            Layout.ofTrace t' designated policy = .ok layout' → layout'.root = layout.root) ∧
    ∀ {σ τ : Type} {R : σ → τ → Prop} {l : Lookup σ} {l' : Lookup τ},
      Backend.Coupled R (fun r r' => r.Reordered r' ∧ r.Staggered) l.backend l'.backend →
      l'.maxRounds = l.maxRounds → ∀ (header : Header) (options : Options) (s : σ) (s' : τ),
        R s s' →
        Agree (Tree.Alike fun t t' => t.Reordered t' ∧ t.Staggered)
            (Tree.build l header options s).1 (Tree.build l' header options s').1 ∧
          R (Tree.build l header options s).2 (Tree.build l' header options s').2 := by
  constructor
  · intro t t' h hid designated
    have hroot : Layout.root? t' designated = Layout.root? t designated :=
      Layout.root?_reordered h hid
    refine ⟨hroot, fun policy => ⟨?_, fun layout layout' hl hl' => ?_⟩⟩
    · rw [Layout.ofTrace_eq_rootNotFound, Layout.ofTrace_eq_rootNotFound, hroot]
    · rw [Layout.root?_of_ofTrace hl, Layout.root?_of_ofTrace hl'] at hroot
      exact Option.some.inj hroot
  · intro σ τ R l l' hb hrounds header options
    refine Tree.build_coupled (Lookup.coupled_reordered hb hrounds) ?_ header
    exact fun t t' h => ⟨h.1.id, Layout.ofTrace_reordered h.1 h.2⟩

open Store.Sample in
/-- Two segments that may both be the root, and a store that lists its documents in the other
order. -/
theorem Tree.build_reordered_sample :
    tied.Reordered { tied with segments := tied.segments.reverse } ∧
      (tied.segments.map Segment.id).Nodup ∧
      Layout.root? tied none = some segmentA ∧
      Layout.root? { tied with segments := tied.segments.reverse } none
        = Layout.root? tied none ∧
      staggered.Reordered turned ∧
      Agree (Tree.Alike fun t t' => t.Reordered t' ∧ t.Staggered)
        (Tree.build ⟨Store.backend, 10⟩ (Header.ofRoot ⟨"1-s"⟩) options staggered).1
        (Tree.build ⟨Store.backend, 10⟩ (Header.ofRoot ⟨"1-s"⟩) options turned).1 :=
  have hreordered : tied.Reordered { tied with segments := tied.segments.reverse } :=
    ⟨rfl, rfl, rfl, List.reverse_perm _⟩
  have hid : (tied.segments.map Segment.id).Nodup := by decide
  ⟨hreordered, hid, by cbv, (Tree.build_reordered.1 hreordered hid none).1, reordered_staggered,
    (Tree.build_reordered.2 Store.coupled_reordered rfl _ _ _ _ reordered_staggered).1⟩

end CausalTrace
