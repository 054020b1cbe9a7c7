import CausalTrace.Proofs.Assembly.Lineage

/-!
# Segments that are delivered again

A backend may hand out a segment several times.  A copy that starts no earlier than the first copy
of its segment changes nothing, whatever else it says: no other parent, no segments nested in it and
no links of it come to be looked at.

## Main definitions

* `Trace.redelivered`, `Trace.Redelivers`

## Main statements

* `Reference.firstCopy_redelivered` — the first copies stay the first ones
* `Layout.ofTrace_redelivered`

## Design notes

Everything that a layout says of a trace it says of the segments that count, and these are given by
the first copies.  So nothing needs to be said of sorting, of parent ids or of the root.
-/

namespace CausalTrace

/-- A trace with further segments behind its own. -/
def Trace.redelivered (t : Trace) (extra : List Segment) : Trace :=
  { t with segments := t.segments ++ extra }

/-- Each of the further segments has the id of a segment of the trace, and starts no earlier than
the first copy of it. -/
def Trace.Redelivers (t : Trace) (extra : List Segment) : Prop :=
  ∀ s ∈ extra, ∃ a, Reference.FirstCopy t.segments a ∧ a.1.id = s.id ∧ a.1.start ≤ s.start

namespace Reference

variable {t : Trace} {extra : List Segment}

/-- Segments are delivered again when each of them has a counterpart that counts and starts no
later. -/
theorem redelivers_iff : t.Redelivers extra ↔
    ∀ s ∈ extra, ∃ u ∈ Layout.counted t, u.id = s.id ∧ u.start ≤ s.start := by
  refine forall₂_congr fun s _ => ⟨?_, ?_⟩
  · rintro ⟨a, ha, hs⟩
    exact ⟨a.1, mem_counted_iff.mpr ⟨a.2, ha⟩, hs⟩
  · rintro ⟨u, hu, hs⟩
    obtain ⟨i, hi⟩ := mem_counted_iff.mp hu
    exact ⟨(u, i), hi, hs⟩

/-- A copy is one of the trace, or is delivered again and then comes after them. -/
theorem mem_zipIdx_redelivered {a : Segment × Nat} (h : a ∈ (t.segments ++ extra).zipIdx) :
    a ∈ t.segments.zipIdx ∨ (a.1 ∈ extra ∧ t.segments.length ≤ a.2) := by
  rw [List.zipIdx_append, List.mem_append] at h
  refine h.imp_right fun ha => ?_
  rw [Nat.zero_add] at ha
  exact ⟨List.fst_mem_of_mem_zipIdx ha, List.le_snd_of_mem_zipIdx ha⟩

theorem lt_length_of_mem_zipIdx {a : Segment × Nat} (h : a ∈ t.segments.zipIdx) :
    a.2 < t.segments.length := by
  simpa using List.snd_lt_add_of_mem_zipIdx h

/-- A first copy comes before all that is delivered again. -/
theorem FirstCopy.redelivered (h : t.Redelivers extra) {a : Segment × Nat}
    (ha : FirstCopy t.segments a) : FirstCopy (t.segments ++ extra) a := by
  refine ⟨?_, fun b hb hid => ?_⟩
  · rw [List.zipIdx_append]
    exact List.mem_append_left _ ha.1
  · rcases mem_zipIdx_redelivered hb with hb | ⟨hb, hlength⟩
    · exact ha.2 b hb hid
    · obtain ⟨c, hc, hcid, hstart⟩ := h b.1 hb
      obtain rfl := hc.unique ha (hcid.trans hid)
      exact .inr (before_of_le hstart (Nat.lt_of_lt_of_le (lt_length_of_mem_zipIdx hc.1) hlength))

/-- The first copies stay the first ones, and no other copies are. -/
theorem firstCopy_redelivered (h : t.Redelivers extra) {a : Segment × Nat} :
    FirstCopy (t.segments ++ extra) a ↔ FirstCopy t.segments a := by
  refine ⟨fun ha => ?_, .redelivered h⟩
  rcases mem_zipIdx_redelivered ha.1 with hmem | ⟨hmem, -⟩
  · refine ⟨hmem, fun b hb hid => ha.2 b ?_ hid⟩
    rw [List.zipIdx_append]
    exact List.mem_append_left _ hb
  · -- a copy with this id that was there before is a first copy as well, and so it is this one
    obtain ⟨c, hc, hid, -⟩ := h a.1 hmem
    rwa [ha.unique (hc.redelivered h) hid.symm]

/-- What is delivered again does not count. -/
theorem counted_redelivered (h : t.Redelivers extra) :
    Layout.counted (t.redelivered extra) = Layout.counted t := by
  have hcounted := counted_counted (t.redelivered extra)
  unfold Counted Trace.redelivered at hcounted
  simp only [firstCopy_redelivered h] at hcounted
  exact counted_iff.mp hcounted

end Reference

namespace Layout

open Reference

section

variable {t : Trace} {extra : List Segment} {designated : Option String} {policy : OrphanPolicy}
  {l : Layout}

/-- The segments of a layout are copies that the trace had before. -/
theorem exists_copy_of_redelivered (h : t.Redelivers extra)
    (hl : ofTrace (t.redelivered extra) designated policy = .ok l) {s : Segment}
    (hs : s ∈ l.root :: l.attached.map Prod.snd) :
    ∃ i < t.segments.length, FirstCopy (t.redelivered extra).segments (s, i) := by
  have hcounted : s ∈ counted (t.redelivered extra) := by
    rcases List.mem_cons.mp hs with rfl | hs
    · exact root_mem_counted hl
    · exact (attached_sublist hl).subset hs
  obtain ⟨i, hi⟩ := mem_counted_iff.mp hcounted
  exact ⟨i, lt_length_of_mem_zipIdx ((firstCopy_redelivered h).mp hi).1, hi⟩

end

/-- Segments that are delivered again change neither which copies count, nor the layout of a trace,
nor the reason why it has none; and the trace is placed and its links are followed as before. -/
theorem ofTrace_redelivered {t : Trace} {extra : List Segment} (h : t.Redelivers extra) :
    (∀ a, FirstCopy (t.redelivered extra).segments a ↔ FirstCopy t.segments a) ∧
    (∀ designated policy,
      ofTrace (t.redelivered extra) designated policy = ofTrace t designated policy) ∧
    (∀ designated policy l, ofTrace (t.redelivered extra) designated policy = .ok l →
      ∀ s ∈ l.root :: l.attached.map Prod.snd,
        ∃ i < t.segments.length, FirstCopy (t.redelivered extra).segments (s, i)) ∧
    ∀ {σ : Type} (l : Lookup σ) options levels designated,
      Assembly.splice l options levels (t.redelivered extra) designated
        = Assembly.splice l options levels t designated := by
  have hlayout : ∀ designated policy,
      ofTrace (t.redelivered extra) designated policy = ofTrace t designated policy := by
    intro designated policy
    rw [ofTrace_eq, ofTrace_eq, counted_redelivered h]
    rfl
  refine ⟨fun _ => firstCopy_redelivered h, hlayout,
    fun _ _ _ hl _ hs => exists_copy_of_redelivered h hl hs, fun l options levels designated => ?_⟩
  -- a trace is entered by its id and its layout alone
  cases levels with
  | zero =>
      unfold Assembly.splice Assembly.enter
      rw [hlayout]
      rfl
  | succ n =>
      unfold Assembly.splice Assembly.enter
      rw [hlayout]
      rfl

namespace Sample

/-- A copy of the root with a missing parent, one of a segment on a cycle that would break it, and
one of the orphan in which its parent is nested; two of them start when the first copy does. -/
def copies : List Segment := [segment "r" (some "q") 1 [], segment "x" (some "a") 4 [],
  segment "o" (some "r") 10 [segment "z" none 10 []]]

theorem redelivers_copies : trace.Redelivers copies := by
  rw [redelivers_iff, counted_trace]
  intro s hs
  simp only [copies, List.mem_cons, List.not_mem_nil, or_false] at hs
  rcases hs with rfl | rfl | rfl
  · exact ⟨segmentR, by simp, rfl, by decide⟩
  · exact ⟨segmentX, by simp, rfl, by decide⟩
  · exact ⟨segmentO, by simp, rfl, by decide⟩

end Sample

/-- Three copies that would change the layout if they counted. -/
theorem redelivered_sample :
    Sample.trace.Redelivers Sample.copies ∧
      ofTrace (Sample.trace.redelivered Sample.copies) (some "n") .prune = .ok Sample.layout :=
  ⟨Sample.redelivers_copies, ((ofTrace_redelivered Sample.redelivers_copies).2.1 _ _).trans
    Sample.ofTrace_trace⟩

end Layout

end CausalTrace
