import CausalTrace.Assembly.Layout
import Mathlib.Data.List.Nodup
import Mathlib.Data.List.Perm.Basic

/-!
# Where the segments of a layout are placed

The placement of a layout numbers its segments.  Every segment but the root hangs below one with a
smaller number, so the numbers below the segments, taken together, are all numbers but that of the
root.  What hangs below a placed segment is what the layout attaches to its id, in the same order.

## Main statements

* `Layout.below_bounds` — what hangs below a segment has a greater number
* `Layout.perm_below` — every number but zero is below exactly one segment
* `Layout.segments_below` — which segments hang below one
* `Layout.mem_segments_of_mem_placed` — what is placed is from the trace
* `Layout.placed_induction` — what is handed down from the root holds of all that is placed

## Design notes

The invariant of the stack is that its numbers are smaller than the next free one, and that its ids
and those of the loose segments are distinct.  Both are kept when a segment is taken from it.
-/

namespace CausalTrace

/-- Lists put apart by a key, and put together again in any order of the keys. -/
theorem perm_flatMap_filter {α : Type} (key : α → Nat) :
    ∀ (keys : List Nat) (items : List α), keys.Nodup → (∀ e ∈ items, key e ∈ keys) →
      (keys.flatMap fun i => items.filter fun e => key e == i).Perm items := by
  intro keys
  induction keys with
  | nil =>
      intro items _ hmem
      have hnil : items = [] := List.eq_nil_iff_forall_not_mem.mpr fun e he => by
        simpa using hmem e he
      simp [hnil]
  | cons k ks ih =>
      intro items hnd hmem
      obtain ⟨hk, hks⟩ := List.nodup_cons.mp hnd
      -- the items with the first key are put aside, and the others are put apart by the other keys
      have hothers : (ks.flatMap fun i => items.filter fun e => key e == i)
          = ks.flatMap fun i =>
              (items.filter fun e => !(key e == k)).filter fun e => key e == i := by
        apply List.flatMap_congr
        intro i hi
        rw [List.filter_filter]
        apply List.filter_congr
        intro e _
        by_cases he : key e = i
        · have hik : i ≠ k := by
            rintro rfl
            exact hk hi
          simp [he, hik]
        · simp [he]
      rw [List.flatMap_cons, hothers]
      refine (List.Perm.append_left _ (ih _ hks ?_)).trans
        (List.filter_append_perm (fun e => key e == k) items)
      intro e he
      obtain ⟨he, hne⟩ := List.mem_filter.mp he
      rcases List.mem_cons.mp (hmem e he) with h | h
      · simp [h] at hne
      · exact h

namespace Layout

/-! ### The stack -/

theorem mem_numbered {next : Nat} {segments : List Segment} {e : Nat × String} :
    e ∈ numbered next segments ↔
      ∃ k, ∃ s, segments[k]? = some s ∧ e = (next + k, s.id) := by
  unfold numbered
  rw [List.mem_map]
  constructor
  · rintro ⟨⟨s, i⟩, hm, rfl⟩
    obtain ⟨hle, hk⟩ := List.mk_mem_zipIdx_iff_le_and_getElem?_sub.mp hm
    exact ⟨i - next, s, hk, by simp; omega⟩
  · rintro ⟨k, s, hk, rfl⟩
    exact ⟨(s, next + k), List.mk_mem_zipIdx_iff_le_and_getElem?_sub.mpr ⟨by omega, by simpa⟩, rfl⟩

theorem map_fst_numbered (next : Nat) (segments : List Segment) :
    (numbered next segments).map Prod.fst = List.range' next segments.length := by
  simp [numbered, List.map_map, Function.comp_def, List.zipIdx_map_snd]

theorem map_snd_numbered (next : Nat) (segments : List Segment) :
    (numbered next segments).map Prod.snd = segments.map Segment.id := by
  conv_rhs => rw [← List.zipIdx_map_fst next segments, List.map_map]
  rw [numbered, List.map_map]
  rfl

/-- What is placed was loose. -/
theorem mem_hang (stack : List (Nat × String)) (next : Nat) (loose : List (String × Segment)) :
    ∀ e ∈ hang stack next loose, e.2 ∈ loose.map Prod.snd := by
  fun_induction hang stack next loose with
  | case1 next loose => simp
  | case2 next loose node id rest children ih =>
      intro e he
      rcases List.mem_append.mp he with he | he
      · obtain ⟨c, hc, rfl⟩ := List.mem_map.mp he
        obtain ⟨f, hf, rfl⟩ := List.mem_map.mp hc
        exact List.mem_map_of_mem (List.mem_of_mem_filter hf)
      · obtain ⟨f, hf, hs⟩ := List.mem_map.mp (ih e he)
        exact hs ▸ List.mem_map_of_mem (List.mem_of_mem_filter hf)

/-- A segment hangs below one from the stack, or below one placed before it. -/
theorem hang_parent (stack : List (Nat × String)) (next : Nat) (loose : List (String × Segment)) :
    ∀ k e, (hang stack next loose)[k]? = some e →
      e.1 ∈ stack.map Prod.fst ∨ (next ≤ e.1 ∧ e.1 < next + k) := by
  fun_induction hang stack next loose with
  | case1 next loose => simp
  | case2 next loose node id rest children ih =>
      intro k e he
      rcases Nat.lt_or_ge k children.length with hk | hk
      · rw [List.getElem?_append_left (by simpa using hk), List.getElem?_map] at he
        obtain ⟨c, -, rfl⟩ := Option.map_eq_some_iff.mp he
        exact .inl (by simp)
      · rw [List.getElem?_append_right (by simpa using hk), List.length_map] at he
        rcases ih _ _ he with hp | hp
        · rw [List.map_append, List.mem_append, List.map_reverse, List.mem_reverse,
            map_fst_numbered, List.mem_range'_1] at hp
          rcases hp with hp | hp
          · exact .inr ⟨hp.1, by omega⟩
          · exact .inl (List.mem_cons_of_mem _ hp)
        · exact .inr ⟨by omega, by omega⟩

theorem mem_looseBelow_self {loose : List (String × Segment)} {id : String} {s : Segment} :
    s ∈ looseBelow loose id ↔ (id, s) ∈ loose := by
  unfold looseBelow
  rw [List.mem_map]
  constructor
  · rintro ⟨⟨id', s'⟩, he, rfl⟩
    obtain ⟨hmem, hid⟩ := List.mem_filter.mp he
    obtain rfl : id' = id := beq_iff_eq.mp hid
    exact hmem
  · exact fun h => ⟨(id, s), List.mem_filter.mpr ⟨h, beq_self_eq_true id⟩, rfl⟩

theorem looseBelow_looseElse {loose : List (String × Segment)} {id other : String}
    (h : other ≠ id) : looseBelow (looseElse loose id) other = looseBelow loose other := by
  unfold looseBelow looseElse
  rw [List.filter_filter]
  congr 1
  apply List.filter_congr
  intro e _
  by_cases he : e.1 = other <;> simp [he, h]

/-- The ids of the loose segments, put apart as the placement does. -/
theorem perm_loose_ids (loose : List (String × Segment)) (id : String) :
    ((looseBelow loose id).map Segment.id ++ (looseElse loose id).map fun e => e.2.id).Perm
      (loose.map fun e => e.2.id) := by
  unfold looseBelow looseElse
  rw [List.map_map, ← Function.comp_def Segment.id, ← List.map_append]
  exact (List.filter_append_perm (fun e => e.1 == id) loose).map _

/-- What is placed, and what stays loose, was loose before. -/
theorem exists_perm_hang_ids (stack : List (Nat × String)) (next : Nat)
    (loose : List (String × Segment)) :
    ∃ left : List String, (((hang stack next loose).map fun e => e.2.id) ++ left).Perm
      (loose.map fun e => e.2.id) := by
  fun_induction hang stack next loose with
  | case1 next loose => exact ⟨loose.map fun e => e.2.id, .refl _⟩
  | case2 next loose node id rest children ih =>
      obtain ⟨left, hleft⟩ := ih
      refine ⟨left, ?_⟩
      rw [List.map_append, List.map_map, List.append_assoc]
      exact (hleft.append_left _).trans (perm_loose_ids loose id)

/-- The ids on the stack and those of the loose segments stay the same when a segment is taken from
the stack, but for its own. -/
theorem perm_ids_step (rest : List (Nat × String)) (next : Nat) (loose : List (String × Segment))
    (id : String) :
    (((numbered next (looseBelow loose id)).reverse ++ rest).map Prod.snd
      ++ (looseElse loose id).map fun e => e.2.id).Perm
        (rest.map Prod.snd ++ loose.map fun e => e.2.id) := by
  rw [List.map_append, List.map_reverse, map_snd_numbered]
  refine (((List.reverse_perm _).append_right _).append_right _).trans ?_
  refine (List.perm_append_comm.append_right _).trans ?_
  rw [List.append_assoc]
  exact (perm_loose_ids loose id).append_left _

/-- The ids on the stack and those of the loose segments stay distinct when a segment is taken from
the stack. -/
theorem nodup_ids_step {rest : List (Nat × String)} {next : Nat} {loose : List (String × Segment)}
    {id : String} (h : (rest.map Prod.snd ++ loose.map fun e => e.2.id).Nodup) :
    (((numbered next (looseBelow loose id)).reverse ++ rest).map Prod.snd
      ++ (looseElse loose id).map fun e => e.2.id).Nodup :=
  (perm_ids_step rest next loose id).nodup_iff.mpr h

/-- The numbers on the stack stay distinct and smaller than the next one. -/
theorem numbers_step {node : Nat} {id : String} {rest : List (Nat × String)} {next : Nat}
    (segments : List Segment) (hnum : (((node, id) :: rest).map Prod.fst).Nodup)
    (hlt : ∀ i ∈ ((node, id) :: rest).map Prod.fst, i < next) :
    (((numbered next segments).reverse ++ rest).map Prod.fst).Nodup ∧
      ∀ i ∈ ((numbered next segments).reverse ++ rest).map Prod.fst,
        i < next + segments.length := by
  rw [List.map_cons, List.nodup_cons] at hnum
  rw [List.map_append, List.map_reverse, map_fst_numbered]
  have hrest : ∀ i ∈ rest.map Prod.fst, i < next := fun i hi =>
    hlt i (List.mem_cons_of_mem _ hi)
  refine ⟨?_, ?_⟩
  · rw [List.nodup_append]
    refine ⟨List.nodup_reverse.mpr List.nodup_range', hnum.2, ?_⟩
    intro i hi j hj
    rw [List.mem_reverse, List.mem_range'_1] at hi
    have := hrest j hj
    omega
  · intro i hi
    rw [List.mem_append, List.mem_reverse, List.mem_range'_1] at hi
    rcases hi with hi | hi
    · exact hi.2
    · have := hrest i hi
      omega

/-- What hangs below a segment from the stack, and below one that is placed, is what is loose and
names its id. -/
theorem hang_segments (stack : List (Nat × String)) (next : Nat) (loose : List (String × Segment)) :
    (stack.map Prod.fst).Nodup → (∀ i ∈ stack.map Prod.fst, i < next) →
    (stack.map Prod.snd ++ loose.map fun e => e.2.id).Nodup →
    (∀ e ∈ stack, ((hang stack next loose).filter fun f => f.1 == e.1).map Prod.snd
      = looseBelow loose e.2) ∧
    (∀ k e, (hang stack next loose)[k]? = some e →
      ((hang stack next loose).filter fun f => f.1 == next + k).map Prod.snd
        = looseBelow loose e.2.id) := by
  fun_induction hang stack next loose with
  | case1 next loose => simp
  | case2 next loose node id rest children ih =>
      intro hnum hlt hids
      have hnode : node < next := hlt node (by simp)
      obtain ⟨hnum', hlt'⟩ := numbers_step children hnum hlt
      rw [List.map_cons, List.cons_append, List.nodup_cons] at hids
      obtain ⟨hid, hids⟩ := hids
      obtain ⟨ihstack, ihplaced⟩ := ih hnum' hlt' (nodup_ids_step hids)
      have hloose : ∀ e ∈ loose, e.2.id ≠ id := by
        rintro e he rfl
        exact hid (List.mem_append_right _ (List.mem_map_of_mem he))
      -- only the children placed now hang below the segment that is taken from the stack
      have hnone : (hang ((numbered next children).reverse ++ rest) (next + children.length)
          (looseElse loose id)).filter (fun f => f.1 == node) = [] := by
        rw [List.filter_eq_nil_iff]
        intro f hf
        obtain ⟨k, hk⟩ := List.mem_iff_getElem?.mp hf
        simp only [beq_iff_eq]
        rintro rfl
        rcases hang_parent _ _ _ k f hk with hp | hp
        · rw [List.map_append, List.mem_append, List.map_reverse, List.mem_reverse,
            map_fst_numbered, List.mem_range'_1] at hp
          rcases hp with hp | hp
          · omega
          · rw [List.map_cons, List.nodup_cons] at hnum
            exact hnum.1 hp
        · omega
      -- below any other number hangs what the rest of the placement puts there
      have hother : ∀ i, i ≠ node → (children.map (fun c => (node, c))
          ++ hang ((numbered next children).reverse ++ rest) (next + children.length)
            (looseElse loose id)).filter (fun f => f.1 == i)
          = (hang ((numbered next children).reverse ++ rest) (next + children.length)
            (looseElse loose id)).filter fun f => f.1 == i := by
        intro i hi
        rw [List.filter_append, List.filter_eq_nil_iff.mpr, List.nil_append]
        intro f hf
        obtain ⟨c, -, rfl⟩ := List.mem_map.mp hf
        simpa using Ne.symm hi
      refine ⟨?_, ?_⟩
      · intro e he
        rcases List.mem_cons.mp he with rfl | he
        · rw [List.filter_append, hnone, List.append_nil, List.filter_eq_self.mpr, List.map_map]
          · simp [Function.comp_def, children]
          · intro f hf
            obtain ⟨c, -, rfl⟩ := List.mem_map.mp hf
            simp
        · have hne : e.1 ≠ node := by
            rw [List.map_cons, List.nodup_cons] at hnum
            rintro h
            exact hnum.1 (List.mem_map.mpr ⟨e, he, h⟩)
          have hid' : e.2 ≠ id := by
            rintro h
            exact hid (List.mem_append_left _ (List.mem_map.mpr ⟨e, he, h⟩))
          rw [hother _ hne, ihstack e (List.mem_append_right _ he), looseBelow_looseElse hid']
      · intro k e he
        rw [hother _ (by omega)]
        rcases Nat.lt_or_ge k children.length with hk | hk
        · rw [List.getElem?_append_left (by simpa using hk), List.getElem?_map] at he
          obtain ⟨c, hc, rfl⟩ := Option.map_eq_some_iff.mp he
          have hmem : (next + k, c.id) ∈ (numbered next children).reverse ++ rest :=
            List.mem_append_left _ (List.mem_reverse.mpr (mem_numbered.mpr ⟨k, c, hc, rfl⟩))
          obtain ⟨f, hf, rfl⟩ := List.mem_map.mp (List.mem_of_getElem? hc)
          rw [ihstack _ hmem, looseBelow_looseElse (hloose f (List.mem_of_mem_filter hf))]
        · rw [List.getElem?_append_right (by simpa using hk), List.length_map] at he
          obtain ⟨f, hf, hfs⟩ := List.mem_map.mp (mem_hang _ _ _ e (List.mem_of_getElem? he))
          have hk' : next + k = next + children.length + (k - children.length) := by omega
          rw [hk', ihplaced _ e he, ← hfs,
            looseBelow_looseElse (hloose f (List.mem_of_mem_filter hf))]

/-! ### Numbers of a layout -/

variable (l : Layout)

theorem length_placed : l.placed.length = l.hung.length + 1 := by
  simp [placed]

/-- A segment is hung below one that was placed before it. -/
theorem hung_parent_lt {k : Nat} {e : Nat × Segment} (h : l.hung[k]? = some e) : e.1 < k + 1 := by
  rcases hang_parent _ _ _ k e h with hp | hp
  · simp at hp
    omega
  · omega

/-- The numbers below a segment are those of what was hung there. -/
theorem mem_below {hung : List (Nat × Segment)} {i c : Nat} :
    c ∈ below hung i ↔ ∃ k s, hung[k]? = some (i, s) ∧ c = k + 1 := by
  unfold below
  rw [List.mem_filterMap]
  constructor
  · rintro ⟨⟨⟨j, s⟩, c'⟩, hm, hc⟩
    obtain ⟨hle, hk⟩ := List.mk_mem_zipIdx_iff_le_and_getElem?_sub.mp hm
    simp only [Option.ite_none_right_eq_some, Option.some.injEq] at hc
    obtain ⟨rfl, rfl⟩ := hc
    exact ⟨c' - 1, s, hk, by omega⟩
  · rintro ⟨k, s, hk, rfl⟩
    exact ⟨((i, s), k + 1), List.mk_mem_zipIdx_iff_le_and_getElem?_sub.mpr ⟨by omega, by simpa⟩,
      by simp⟩

/-- What hangs below a segment has a greater number, and one that is given out. -/
theorem below_bounds {i c : Nat} (h : c ∈ below l.hung i) : i < c ∧ c < l.placed.length := by
  obtain ⟨k, s, hk, rfl⟩ := mem_below.mp h
  have hp := l.hung_parent_lt hk
  have hlt := (List.getElem?_eq_some_iff.mp hk).1
  rw [length_placed]
  exact ⟨hp, by omega⟩

theorem below_eq_map_filter (hung : List (Nat × Segment)) (i : Nat) :
    below hung i = ((hung.zipIdx 1).filter fun e => e.1.1 == i).map Prod.snd := by
  unfold below
  rw [← List.filterMap_eq_filter, List.map_filterMap]
  apply List.filterMap_congr
  intro e _
  by_cases h : e.1.1 = i <;> simp [Option.guard, h]

/-- Every number but zero is below exactly one segment. -/
theorem perm_below :
    ((List.range l.placed.length).flatMap (below l.hung)).Perm (List.range' 1 l.hung.length) := by
  have hparts : (List.range l.placed.length).flatMap (below l.hung)
      = ((List.range l.placed.length).flatMap fun i =>
          (l.hung.zipIdx 1).filter fun e => e.1.1 == i).map Prod.snd := by
    rw [List.map_flatMap]
    exact List.flatMap_congr fun i _ => below_eq_map_filter l.hung i
  rw [hparts, ← List.zipIdx_map_snd 1 l.hung]
  refine (perm_flatMap_filter (fun e : (Nat × Segment) × Nat => e.1.1) _ _
    List.nodup_range ?_).map Prod.snd
  rintro ⟨e, c⟩ he
  obtain ⟨hle, hk⟩ := List.mk_mem_zipIdx_iff_le_and_getElem?_sub.mp he
  have hp := l.hung_parent_lt hk
  have hlt := (List.getElem?_eq_some_iff.mp hk).1
  have hlt' : e.1 < l.placed.length := by
    rw [length_placed]
    omega
  exact List.mem_range.mpr hlt'

theorem placed_succ (k : Nat) : l.placed[k + 1]? = l.hung[k]?.map Prod.snd := by
  simp [placed]

/-- A node has the segment placed there, and below it what was hung there. -/
theorem getElem?_nodes (base i : Nat) :
    (l.nodes base)[i]? = l.placed[i]?.map fun s => ⟨s, (below l.hung i).map (base + ·)⟩ := by
  simp [nodes, Function.comp_def]

/-- The segments of the nodes are those placed, in order. -/
theorem map_segment_nodes (base : Nat) : (l.nodes base).map Node.segment = l.placed := by
  rw [nodes, List.map_map]
  exact List.zipIdx_map_fst 0 l.placed

/-- Every number but the first is below exactly one node. -/
theorem perm_children_nodes (base : Nat) :
    ((l.nodes base).flatMap Node.children).Perm
      (List.range' (base + 1) (l.placed.length - 1)) := by
  have hparts : (l.nodes base).flatMap Node.children
      = ((List.range l.placed.length).flatMap (below l.hung)).map (base + ·) := by
    rw [nodes, List.flatMap_map, List.map_flatMap, List.range_eq_range',
      ← List.zipIdx_map_snd 0 l.placed, List.flatMap_map]
  have hbelow := l.perm_below.map (base + ·)
  rw [List.map_add_range'] at hbelow
  have hlength : l.placed.length - 1 = l.hung.length := by rw [length_placed, Nat.add_sub_cancel]
  rw [hparts, hlength]
  exact hbelow

/-! ### Segments of a layout -/

theorem mem_of_mem_firstCopies {segments : List Segment} {s : Segment}
    (h : s ∈ firstCopies segments) : s ∈ segments := by
  induction segments with
  | nil => cases h
  | cons t rest ih =>
      rw [firstCopies, List.mem_cons] at h
      rcases h with rfl | h
      · exact List.mem_cons_self
      · exact List.mem_cons_of_mem _ (ih (List.mem_of_mem_filter h))

/-- First copies have distinct ids. -/
theorem nodup_ids_firstCopies (segments : List Segment) :
    ((firstCopies segments).map Segment.id).Nodup := by
  induction segments with
  | nil => simp [firstCopies]
  | cons s rest ih =>
      rw [firstCopies, List.map_cons, List.nodup_cons]
      refine ⟨?_, (List.filter_sublist.map _).nodup ih⟩
      intro hm
      obtain ⟨t, ht, hid⟩ := List.mem_map.mp hm
      have hne := (List.mem_filter.mp ht).2
      simp [hid] at hne

theorem mem_of_earliest? {segments : List Segment} {s : Segment}
    (h : earliest? segments = some s) : s ∈ segments := by
  induction segments with
  | nil => cases h
  | cons t rest ih =>
      rw [earliest?] at h
      cases hr : earliest? rest with
      | none =>
          simp only [hr, Option.some.injEq] at h
          exact h ▸ List.mem_cons_self
      | some u =>
          simp only [hr] at h
          split at h
          · cases h
            exact List.mem_cons_of_mem _ (ih hr)
          · cases h
            exact List.mem_cons_self

section Attach

variable {trace : TraceId} {designated : Option String} {policy : OrphanPolicy}
  {segments : List Segment}

/-- The segment below which one hangs, if there is one. -/
def ownerOf (trace : TraceId) (designated : Option String) (policy : OrphanPolicy)
    (segments : List Segment) (s : Segment) : Option String :=
  (owner? trace designated policy segments s).toOption.join

theorem ownerOf_eq_some {s : Segment} {id : String} :
    ownerOf trace designated policy segments s = some id ↔
      owner? trace designated policy segments s = .ok (some id) := by
  unfold ownerOf
  cases owner? trace designated policy segments s with
  | error e => simp [Except.toOption]
  | ok o => simp [Except.toOption]

/-- The first segment is attached, left out, or refused before any other. -/
theorem attach_cons (s : Segment) (rest : List Segment) :
    attach trace designated policy segments (s :: rest) =
      match owner? trace designated policy segments s with
      | .error e => .error e
      | .ok o =>
        match attach trace designated policy segments rest with
        | .error e => .error e
        | .ok more => .ok ((o.map fun id => (id, s)).toList ++ more) := by
  rw [attach]
  cases owner? trace designated policy segments s with
  | error e => rfl
  | ok o => cases attach trace designated policy segments rest <;> rfl

/-- The segments that a layout attaches are those that have an owner, in their order. -/
theorem attach_ok :
    ∀ {others : List Segment} {attached : List (String × Segment)},
      attach trace designated policy segments others = .ok attached →
      (∀ s ∈ others, ∃ o, owner? trace designated policy segments s = .ok o) ∧
      attached = others.filterMap fun s =>
        (ownerOf trace designated policy segments s).map fun id => (id, s) := by
  intro others
  induction others with
  | nil =>
      intro attached h
      cases h
      exact ⟨by simp, rfl⟩
  | cons s rest ih =>
      intro attached h
      rw [attach_cons] at h
      cases ho : owner? trace designated policy segments s with
      | error e => simp [ho] at h
      | ok o =>
          cases hr : attach trace designated policy segments rest with
          | error e => simp [ho, hr] at h
          | ok more =>
              simp only [ho, hr, Except.ok.injEq] at h
              obtain ⟨hall, rfl⟩ := ih hr
              refine ⟨?_, ?_⟩
              · intro t ht
                rcases List.mem_cons.mp ht with rfl | ht
                · exact ⟨o, ho⟩
                · exact hall t ht
              · rw [← h]
                cases o with
                | none => simp [ownerOf, ho, Except.toOption]
                | some id => simp [ownerOf, ho, Except.toOption]

/-- What cannot be attached is the first segment that has neither an owner nor may be left out. -/
theorem attach_error :
    ∀ {others : List Segment} {e : Failure},
      attach trace designated policy segments others = .error e →
      ∃ before s after, others = before ++ s :: after ∧
        (∀ b ∈ before, ∃ o, owner? trace designated policy segments b = .ok o) ∧
        owner? trace designated policy segments s = .error e := by
  intro others
  induction others with
  | nil =>
      intro e h
      cases h
  | cons s rest ih =>
      intro e h
      rw [attach_cons] at h
      cases ho : owner? trace designated policy segments s with
      | error e' =>
          simp only [ho, Except.error.injEq] at h
          exact ⟨[], s, rest, rfl, by simp, h ▸ ho⟩
      | ok o =>
          cases hr : attach trace designated policy segments rest with
          | ok more => simp [ho, hr] at h
          | error e' =>
              simp only [ho, hr, Except.error.injEq] at h
              obtain ⟨before, u, after, rfl, hall, hu⟩ := ih (h ▸ hr)
              refine ⟨s :: before, u, after, rfl, ?_, hu⟩
              intro b hb
              rcases List.mem_cons.mp hb with rfl | hb
              · exact ⟨o, ho⟩
              · exact hall b hb

/-- Segments cannot be attached if one of them cannot, and the failure is that of the first one. -/
theorem attach_append_cons {before : List Segment} {s : Segment} {e : Failure}
    (after : List Segment)
    (hbefore : ∀ b ∈ before, ∃ o, owner? trace designated policy segments b = .ok o)
    (hs : owner? trace designated policy segments s = .error e) :
    attach trace designated policy segments (before ++ s :: after) = .error e := by
  induction before with
  | nil => rw [List.nil_append, attach_cons, hs]
  | cons b rest ih =>
      obtain ⟨o, ho⟩ := hbefore b List.mem_cons_self
      rw [List.cons_append, attach_cons, ho, ih fun c hc => hbefore c (List.mem_cons_of_mem _ hc)]

/-- A segment hangs below the one that its parent id is resolved to, unless that is itself. -/
theorem owner?_eq_some {s : Segment} {id : String} :
    owner? trace designated policy segments s = .ok (some id) ↔
      ∃ parent u, s.parent = some parent ∧ resolve? segments parent = some u ∧ u.id ≠ s.id ∧
        u.id = id := by
  unfold owner?
  cases s.parent with
  | none => simp
  | some parent =>
      simp only [Option.some.injEq, exists_and_left, exists_eq_left']
      cases resolve? segments parent with
      | none =>
          simp only [reduceCtorEq, false_and, exists_false, iff_false]
          split
          · simp
          · cases policy <;> simp
      | some u =>
          simp only [Option.some.injEq, exists_eq_left', Except.ok.injEq]
          by_cases hself : u.id = s.id <;> simp [hself]

/-- A segment is refused only if its parent is nowhere and is not to be left out. -/
theorem owner?_error {s : Segment} {e : Failure}
    (h : owner? trace designated policy segments s = .error e) :
    ∃ p, s.parent = some p ∧ resolve? segments p = none ∧ designated ≠ some p ∧
      ((policy = .retry ∧ e = .parentMissing trace s.id p) ∨
        (policy = .fail ∧ e = .orphaned trace s.id p)) := by
  unfold owner? at h
  cases hp : s.parent with
  | none => simp [hp] at h
  | some p =>
      cases hr : resolve? segments p with
      | some o => simp [hp, hr] at h
      | none =>
          by_cases hd : designated = some p
          · simp [hp, hr, hd] at h
          · cases policy with
            | prune => simp [hp, hr, hd] at h
            | retry =>
                simp only [hp, hr, hd, if_false, Except.error.injEq] at h
                exact ⟨p, rfl, hr, hd, .inl ⟨rfl, h.symm⟩⟩
            | fail =>
                simp only [hp, hr, hd, if_false, Except.error.injEq] at h
                exact ⟨p, rfl, hr, hd, .inr ⟨rfl, h.symm⟩⟩

end Attach

/-- The segments of a trace that count, by start time. -/
def counted (t : Trace) : List Segment := firstCopies (inStartOrder t.segments)

theorem nodup_counted (t : Trace) : (counted t).Nodup := (nodup_ids_firstCopies _).of_map

theorem mem_segments_of_mem_counted {t : Trace} {s : Segment} (h : s ∈ counted t) :
    s ∈ t.segments :=
  List.mem_mergeSort.mp (mem_of_mem_firstCopies h)

section OfTrace

variable {l} {t : Trace} {designated : Option String} {policy : OrphanPolicy}

/-- A layout in two parts: the root, and the segments below it. -/
theorem ofTrace_eq (t : Trace) (designated : Option String) (policy : OrphanPolicy) :
    ofTrace t designated policy =
      match earliest? ((counted t).filter (isCandidate designated)) with
      | none => .error (.rootNotFound t.id)
      | some root =>
        match attach t.id designated policy (counted t)
            ((counted t).filter fun s => s.id ≠ root.id) with
        | .error e => .error e
        | .ok attached => .ok ⟨root, attached⟩ := by
  have hcounted : firstCopies (inStartOrder t.segments) = counted t := rfl
  rw [ofTrace, hcounted]
  cases earliest? ((counted t).filter (isCandidate designated)) with
  | none => rfl
  | some root =>
      simp only
      cases attach t.id designated policy (counted t)
          ((counted t).filter fun s => s.id ≠ root.id) <;> rfl

/-- The root of a layout is the earliest candidate, and every other segment that counts is
attached. -/
theorem ofTrace_ok (h : ofTrace t designated policy = .ok l) :
    earliest? ((counted t).filter (isCandidate designated)) = some l.root ∧
      attach t.id designated policy (counted t)
        ((counted t).filter fun s => s.id ≠ l.root.id) = .ok l.attached := by
  rw [ofTrace_eq] at h
  cases hr : earliest? ((counted t).filter (isCandidate designated)) with
  | none => simp [hr] at h
  | some root =>
      simp only [hr] at h
      cases ha : attach t.id designated policy (counted t)
          ((counted t).filter fun s => s.id ≠ root.id) with
      | error e => simp only [ha, reduceCtorEq] at h
      | ok attached =>
          simp only [ha, Except.ok.injEq] at h
          subst h
          exact ⟨rfl, ha⟩

/-- A layout fails for want of a root, or because of a segment whose parent is missing. -/
theorem ofTrace_error {e : Failure} (h : ofTrace t designated policy = .error e) :
    e = .rootNotFound t.id ∨ (∃ s p, e = .parentMissing t.id s p) ∨
      ∃ s p, e = .orphaned t.id s p := by
  rw [ofTrace_eq] at h
  cases hr : earliest? ((counted t).filter (isCandidate designated)) with
  | none =>
      simp only [hr, Except.error.injEq] at h
      exact .inl h.symm
  | some root =>
      simp only [hr] at h
      cases ha : attach t.id designated policy (counted t)
          ((counted t).filter fun s => s.id ≠ root.id) with
      | ok attached => simp only [ha, reduceCtorEq] at h
      | error e' =>
          simp only [ha, Except.error.injEq] at h
          obtain ⟨_, s, _, -, -, ho⟩ := attach_error ha
          obtain ⟨p, -, -, -, ⟨-, rfl⟩ | ⟨-, rfl⟩⟩ := owner?_error ho
          · exact .inr (.inl ⟨s.id, p, h.symm⟩)
          · exact .inr (.inr ⟨s.id, p, h.symm⟩)

/-- The root counts. -/
theorem root_mem_counted (h : ofTrace t designated policy = .ok l) : l.root ∈ counted t :=
  List.mem_of_mem_filter (mem_of_earliest? (ofTrace_ok h).1)

/-- What a layout attaches counts, is not the root, and hangs where its parent id says. -/
theorem mem_attached (h : ofTrace t designated policy = .ok l) {e : String × Segment}
    (he : e ∈ l.attached) :
    e.2 ∈ counted t ∧ e.2.id ≠ l.root.id ∧
      owner? t.id designated policy (counted t) e.2 = .ok (some e.1) := by
  rw [(attach_ok (ofTrace_ok h).2).2, List.mem_filterMap] at he
  obtain ⟨s, hs, ho⟩ := he
  obtain ⟨id, hid, rfl⟩ := Option.map_eq_some_iff.mp ho
  obtain ⟨hs, hne⟩ := List.mem_filter.mp hs
  exact ⟨hs, by simpa using hne, ownerOf_eq_some.mp hid⟩

/-- A layout attaches segments that count, in their order. -/
theorem attached_sublist (h : ofTrace t designated policy = .ok l) :
    (l.attached.map Prod.snd).Sublist (counted t) := by
  rw [(attach_ok (ofTrace_ok h).2).2, List.map_filterMap]
  have hguard : ∀ s : Segment,
      ((ownerOf t.id designated policy (counted t) s).map fun id => (id, s)).map Prod.snd
        = Option.guard (fun s => (ownerOf t.id designated policy (counted t) s).isSome) s := by
    intro s
    cases hs : ownerOf t.id designated policy (counted t) s <;> simp [Option.guard, hs]
  simp only [hguard]
  rw [List.filterMap_eq_filter]
  exact List.filter_sublist.trans List.filter_sublist

/-- The ids of the root and of the segments that a layout attaches are distinct. -/
theorem nodup_ids (h : ofTrace t designated policy = .ok l) :
    (l.root.id :: l.attached.map fun e => e.2.id).Nodup := by
  rw [List.nodup_cons]
  refine ⟨?_, ?_⟩
  · intro hm
    obtain ⟨e, he, hid⟩ := List.mem_map.mp hm
    exact (mem_attached h he).2.1 hid
  · have := ((attached_sublist h).map Segment.id).nodup (nodup_ids_firstCopies _)
    rwa [List.map_map] at this

theorem mem_counted_of_mem_placed (h : ofTrace t designated policy = .ok l) {s : Segment}
    (hs : s ∈ l.placed) : s ∈ counted t := by
  rw [placed, List.mem_cons] at hs
  rcases hs with rfl | hs
  · exact root_mem_counted h
  · obtain ⟨e, he, rfl⟩ := List.mem_map.mp hs
    obtain ⟨f, hf, hfs⟩ := List.mem_map.mp (mem_hang _ _ _ e he)
    exact hfs ▸ (mem_attached h hf).1

/-- What is placed is from the trace. -/
theorem mem_segments_of_mem_placed (h : ofTrace t designated policy = .ok l) {s : Segment}
    (hs : s ∈ l.placed) : s ∈ t.segments :=
  mem_segments_of_mem_counted (mem_counted_of_mem_placed h hs)

/-- Below a placed segment are, in order, those that the layout attaches to its id. -/
theorem segments_below (h : ofTrace t designated policy = .ok l) {i : Nat} {s : Segment}
    (hs : l.placed[i]? = some s) :
    (below l.hung i).map (fun c => l.placed[c]?) = (looseBelow l.attached s.id).map some := by
  have hids := nodup_ids h
  -- at the start only the root is on the stack, and all that is attached is loose
  obtain ⟨hstack, hplaced⟩ := hang_segments [(0, l.root.id)] 1 l.attached (by simp) (by simp)
    (by simpa using hids)
  have hgroup : (l.hung.filter fun e => e.1 == i).map Prod.snd = looseBelow l.attached s.id := by
    cases i with
    | zero =>
        simp only [placed, List.getElem?_cons_zero, Option.some.injEq] at hs
        rw [← hs]
        exact hstack (0, l.root.id) (by simp)
    | succ k =>
        rw [placed_succ] at hs
        obtain ⟨e, he, rfl⟩ := Option.map_eq_some_iff.mp hs
        rw [← hplaced k e he, Nat.add_comm 1 k]
        rfl
  rw [← hgroup, below_eq_map_filter, List.map_map, List.map_map]
  have hzip : ((l.hung.zipIdx 1).filter fun e => e.1.1 == i).map
      ((fun c => l.placed[c]?) ∘ Prod.snd)
      = ((l.hung.zipIdx 1).filter fun e => e.1.1 == i).map fun e => some e.1.2 := by
    apply List.map_congr_left
    rintro ⟨e, c⟩ he
    obtain ⟨hle, hk⟩ := List.mk_mem_zipIdx_iff_le_and_getElem?_sub.mp (List.mem_of_mem_filter he)
    obtain ⟨k, rfl⟩ : ∃ k, c = k + 1 := ⟨c - 1, by omega⟩
    rw [Nat.add_sub_cancel] at hk
    simp [placed_succ, hk]
  rw [hzip]
  conv_rhs => rw [← List.zipIdx_map_fst 1 l.hung]
  rw [List.filter_map, List.map_map]
  rfl

/-- What the layout attaches to the id of a placed segment is placed. -/
theorem mem_placed_of_below (h : ofTrace t designated policy = .ok l) {u s : Segment}
    (hu : u ∈ l.placed) (hs : s ∈ looseBelow l.attached u.id) : s ∈ l.placed := by
  obtain ⟨i, hi⟩ := List.mem_iff_getElem?.mp hu
  have hmem : some s ∈ (below l.hung i).map fun c => l.placed[c]? := by
    rw [segments_below h hi]
    exact List.mem_map_of_mem hs
  obtain ⟨c, -, hc⟩ := List.mem_map.mp hmem
  exact List.mem_of_getElem? hc

/-- What holds of the root, and is handed down from a placed segment to those attached to its id,
holds of all that is placed. -/
theorem placed_induction (h : ofTrace t designated policy = .ok l) {Q : Segment → Prop}
    (hroot : Q l.root)
    (hbelow : ∀ u ∈ l.placed, Q u → ∀ s ∈ looseBelow l.attached u.id, Q s) :
    ∀ s ∈ l.placed, Q s := by
  have hnumber : ∀ (k : Nat) (s : Segment), l.placed[k]? = some s → Q s := by
    intro k
    induction k using Nat.strongRecOn with
    | ind k ih =>
        intro s hk
        cases k with
        | zero =>
            rw [placed, List.getElem?_cons_zero] at hk
            rwa [← Option.some.inj hk]
        | succ k =>
            rw [placed_succ] at hk
            obtain ⟨⟨parent, c⟩, hhung, rfl⟩ := Option.map_eq_some_iff.mp hk
            -- the parent has a smaller number, so that it has the property already
            have hparent := l.hung_parent_lt hhung
            have hlt : parent < l.placed.length := by
              have := (List.getElem?_eq_some_iff.mp hhung).1
              rw [length_placed]
              omega
            have hu : l.placed[parent]? = some l.placed[parent] := List.getElem?_eq_getElem hlt
            have hmem : some c ∈ (looseBelow l.attached l.placed[parent].id).map some := by
              rw [← segments_below h hu]
              refine List.mem_map.mpr ⟨k + 1, mem_below.mpr ⟨k, c, hhung, rfl⟩, ?_⟩
              rw [placed_succ, hhung, Option.map_some]
            obtain ⟨c', hc, hsome⟩ := List.mem_map.mp hmem
            obtain rfl := Option.some.inj hsome
            exact hbelow _ (List.mem_of_getElem? hu) (ih parent hparent _ hu) _ hc
  intro s hs
  obtain ⟨k, hk⟩ := List.mem_iff_getElem?.mp hs
  exact hnumber k s hk

/-- No two segments with one id are placed. -/
theorem nodup_ids_placed (h : ofTrace t designated policy = .ok l) :
    (l.placed.map Segment.id).Nodup := by
  obtain ⟨left, hleft⟩ := exists_perm_hang_ids [(0, l.root.id)] 1 l.attached
  have hperm : (l.root.id :: ((l.hung.map fun e => e.2.id) ++ left)).Perm
      (l.root.id :: l.attached.map fun e => e.2.id) := hleft.cons _
  have hplaced : l.placed.map Segment.id = l.root.id :: l.hung.map fun e => e.2.id := by
    rw [placed, List.map_cons, List.map_map]
    rfl
  rw [hplaced]
  exact (hperm.nodup_iff.mpr (nodup_ids h)).sublist
    (List.cons_sublist_cons.mpr (List.sublist_append_left _ _))

end OfTrace

end Layout

end CausalTrace
