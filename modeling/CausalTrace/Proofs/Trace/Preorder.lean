import CausalTrace.Trace.Segment

/-!
# A segment and all nested in it

The walk over pending segments meets a segment before those nested in it, and all of them.

## Main definitions

* `Segment.preorder` — a segment, and all nested in it

## Main statements

* `Segment.preorder_eq_cons` — the descendants of a segment are all that is nested in it
* `Segment.forall_descendants` — what holds of a segment and its descendants, from one level to the
  next
-/

namespace CausalTrace.Segment

/-- A segment, and all nested in it, each before those nested in it. -/
def preorder : Segment → List Segment := fold fun s below => s :: below.flatten

theorem preorder_eq (s : Segment) :
    s.preorder = s :: (s.subsegments.map preorder).flatten := fold_eq _ s

/-- The walk over pending segments meets each of them, and all nested in it. -/
theorem walk_eq (pending : List Segment) :
    walk pending = (pending.map preorder).flatten := by
  induction pending using walk.induct with
  | case1 => rw [walk, List.map_nil, List.flatten_nil]
  | case2 s pending ih =>
      rw [walk, ih, List.map_append, List.flatten_append, List.map_cons, List.flatten_cons,
        preorder_eq s, List.cons_append]

/-- The descendants are all but the first. -/
theorem preorder_eq_cons (s : Segment) : s.preorder = s :: s.descendants := by
  rw [preorder_eq, descendants, walk_eq]

/-- What holds of a segment and its descendants holds of it, and of each segment directly in it and
its descendants. -/
theorem forall_descendants {P : Segment → Prop} {s : Segment} :
    (∀ d ∈ s :: s.descendants, P d) ↔
      P s ∧ ∀ sub ∈ s.subsegments, ∀ d ∈ sub :: sub.descendants, P d := by
  simp only [← preorder_eq_cons]
  rw [preorder_eq, List.forall_mem_cons]
  simp only [List.mem_flatten, List.mem_map]
  constructor
  · rintro ⟨hs, h⟩
    exact ⟨hs, fun sub hsub d hd => h d ⟨_, ⟨sub, hsub, rfl⟩, hd⟩⟩
  · rintro ⟨hs, h⟩
    refine ⟨hs, ?_⟩
    rintro d ⟨_, ⟨sub, hsub, rfl⟩, hd⟩
    exact h sub hsub d hd

end CausalTrace.Segment
