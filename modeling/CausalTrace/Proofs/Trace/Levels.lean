import CausalTrace.Proofs.Trace.Normalization
import CausalTrace.Proofs.Trace.Preorder
import CausalTrace.Trace.Basic

/-!
# Segments of all levels

The descendants of a segment are enumerated by a walk with a stack.  They come in the order of the
recursive definition, which is the lexicographic order of their addresses: a segment stands before
what is nested in it, and what is nested in one segment stands before the next one.  Whatever is
asked of all levels, of a segment or of a trace, is answered in that order.

## Main definitions

* `Segment.standing` — what stands at an address in a list of segments
* `Segment.Lists` — a list of all that stands somewhere, by address
* `Segment.Iterates` — a stack of pending segments, and the segments met until it is empty
* `Segment.Enumerated`, `Trace.Enumerated` — what is asked of all levels, and the answers

## Main statements

* `Segment.iterates_iff` — the stack ends up empty, and what has been met is what is walked over
* `Segment.lists_walk` — the walk meets what stands somewhere, in lexicographic order
* `Trace.enumerated` — descendants, and what is found, counted and collected among them

## Design notes

Two nested segments may be the same, so that a segment is not told from others by what it is but by
where it stands.  An address says level by level which of the nested segments comes next; the empty
one is that of the segment itself, and in a list of segments nothing stands there.
-/

namespace CausalTrace

namespace Segment

/-! ### Nested segments -/

theorem sizeOf_lt_of_mem {c s : Segment} (h : c ∈ s.subsegments) : sizeOf c < sizeOf s := by
  cases s with
  | mk =>
      rename_i subsegments _
      have hlt := List.sizeOf_lt_of_mem (show c ∈ subsegments from h)
      simp only [mk.sizeOf_spec]
      omega

/-- Induction over a segment, from the segments directly in it. -/
theorem induction {motive : Segment → Prop}
    (step : ∀ s, (∀ c ∈ s.subsegments, motive c) → motive s) (s : Segment) : motive s :=
  step s fun c _ => induction step c
termination_by sizeOf s
decreasing_by exact sizeOf_lt_of_mem ‹_›

/-- Each of the segments directly in one comes before those nested in it. -/
theorem descendants_eq (s : Segment) :
    s.descendants = s.subsegments.flatMap fun c => c :: c.descendants := by
  rw [descendants, walk_eq, List.flatMap_def]
  exact congrArg List.flatten (List.map_congr_left fun c _ => preorder_eq_cons c)

/-- There is one function that puts every nested segment before those nested in it. -/
theorem eq_descendants {pre : Segment → List Segment}
    (h : ∀ s, pre s = s.subsegments.flatMap fun c => c :: pre c) (s : Segment) :
    pre s = s.descendants := by
  induction s using induction with
  | step s ih =>
      rw [h, descendants_eq]
      exact List.flatMap_congr fun c hc => by rw [ih c hc]

theorem sizeOf_lt_of_mem_descendants {d s : Segment} (h : d ∈ s.descendants) :
    sizeOf d < sizeOf s := by
  induction s using induction with
  | step s ih =>
      rw [descendants_eq] at h
      obtain ⟨c, hc, hd⟩ := List.mem_flatMap.mp h
      have hlt := sizeOf_lt_of_mem hc
      rcases List.mem_cons.mp hd with rfl | hd
      · exact hlt
      · exact Nat.lt_trans (ih c hc hd) hlt

/-! ### The stack -/

/-- The segment to be met next stands at the end of the stack.  It is taken from there, and what is
directly in it is pushed, the last segment first. -/
def next? (stack : List Segment) : Option (Segment × List Segment) :=
  stack.getLast?.map fun s => (s, stack.dropLast ++ s.subsegments.reverse)

/-- The segments met until the stack is empty. -/
inductive Iterates : List Segment → List Segment → Prop
  | done {stack : List Segment} : next? stack = none → Iterates stack []
  | next {stack stack' met : List Segment} {s : Segment} : next? stack = some (s, stack') →
      Iterates stack' met → Iterates stack (s :: met)

/-- With the segments that are pending on the stack, the first of them is met, and then those in it
are pending before the others. -/
theorem next?_reverse_cons (s : Segment) (pending : List Segment) :
    next? (s :: pending).reverse = some (s, (s.subsegments ++ pending).reverse) := by
  simp [next?]

/-- The stack ends up empty, and then what has been met is what is walked over. -/
theorem iterates_iff {pending met : List Segment} :
    Iterates pending.reverse met ↔ met = walk pending := by
  induction pending using walk.induct generalizing met with
  | case1 =>
      rw [walk]
      constructor
      · rintro (_ | ⟨h, -⟩)
        · rfl
        · cases h
      · rintro rfl
        exact .done rfl
  | case2 s pending ih =>
      rw [walk]
      constructor
      · rintro (h | ⟨h, hrest⟩)
        · rw [next?_reverse_cons] at h
          cases h
        · rw [next?_reverse_cons] at h
          cases h
          rw [ih.mp hrest]
      · rintro rfl
        exact .next (next?_reverse_cons s pending) (ih.mpr rfl)

/-! ### Addresses -/

/-- What stands at an address in a list of segments: the first number says in which segment of the
list, and the others lead into it. -/
def standing (l : List Segment) : List Nat → Option Segment
  | [] => none
  | i :: address => l[i]?.bind fun s => s.at? address

/-- A list of all that stands at an address, each address once, in lexicographic order. -/
structure Lists (stands : List Nat → Option Segment) (addresses : List (List Nat))
    (listed : List Segment) : Prop where
  sorted : addresses.Pairwise (· < ·)
  mem : ∀ address, address ∈ addresses ↔ (stands address).isSome = true
  map : addresses.map stands = listed.map some

namespace Lists

variable {stands : List Nat → Option Segment} {addresses : List (List Nat)} {listed : List Segment}

theorem mem_iff (h : Lists stands addresses listed) {s : Segment} :
    s ∈ listed ↔ ∃ address, stands address = some s := by
  have hlisted : s ∈ listed ↔ some s ∈ addresses.map stands := by
    rw [h.map]
    simp
  rw [hlisted, List.mem_map]
  constructor
  · rintro ⟨address, -, hs⟩
    exact ⟨address, hs⟩
  · rintro ⟨address, hs⟩
    exact ⟨address, (h.mem address).mpr (Option.isSome_of_eq_some hs), hs⟩

/-- The first segment on a list that has a property stands at an address before which none has
it. -/
theorem find?_eq_some (h : Lists stands addresses listed) {p : Segment → Bool} {s : Segment} :
    listed.find? p = some s ↔ ∃ address, stands address = some s ∧ p s = true ∧
      ∀ earlier < address, ∀ u, stands earlier = some u → p u = false := by
  rw [List.find?_eq_some_iff_append]
  constructor
  · rintro ⟨hp, front, back, rfl, hfront⟩
    obtain ⟨front', rest, rfl, hfront', hrest⟩ :=
      List.map_eq_append_iff.mp (h.map.trans List.map_append)
    obtain ⟨address, back', rfl, haddress, -⟩ := List.map_eq_cons_iff.mp hrest
    obtain ⟨-, hlater, -⟩ := List.pairwise_append.mp h.sorted
    refine ⟨address, haddress, hp, fun earlier hlt u hu => ?_⟩
    -- what comes before an address is on the list in front of it, since the list is sorted
    have hmem : earlier ∈ front' := by
      rcases List.mem_append.mp ((h.mem earlier).mpr (Option.isSome_of_eq_some hu)) with hm | hm
      · exact hm
      · rcases List.mem_cons.mp hm with rfl | hm
        · exact absurd hlt (List.lt_irrefl _)
        · exact absurd hlt (List.lt_asymm ((List.pairwise_cons.mp hlater).1 earlier hm))
    have hfound : some u ∈ front.map some := hfront' ▸ hu ▸ List.mem_map_of_mem hmem
    have hnot := hfront u (by simpa using hfound)
    rwa [Bool.not_eq_true'] at hnot
  · rintro ⟨address, haddress, hp, hfirst⟩
    obtain ⟨front, back, rfl⟩ :=
      List.append_of_mem ((h.mem address).mpr (Option.isSome_of_eq_some haddress))
    obtain ⟨front', rest, rfl, hfront', hrest⟩ :=
      List.map_eq_append_iff.mp (h.map.symm.trans List.map_append)
    obtain ⟨s', back', rfl, hs', -⟩ := List.map_eq_cons_iff.mp hrest
    obtain rfl := Option.some.inj (hs'.trans haddress)
    refine ⟨hp, front', back', rfl, fun u hu => ?_⟩
    obtain ⟨earlier, hearlier, hu'⟩ := List.mem_map.mp (hfront' ▸ List.mem_map_of_mem hu)
    rw [hfirst earlier ((List.pairwise_append.mp h.sorted).2.2 earlier hearlier address
      List.mem_cons_self) u hu']
    rfl

/-- Nothing is found when nothing that stands anywhere has the property. -/
theorem find?_eq_none (h : Lists stands addresses listed) {p : Segment → Bool} :
    listed.find? p = none ↔ ∀ address u, stands address = some u → p u = false := by
  rw [List.find?_eq_none]
  constructor
  · intro hnone address u hu
    exact Bool.not_eq_true _ ▸ hnone u (h.mem_iff.mpr ⟨address, hu⟩)
  · intro hnone u hu
    obtain ⟨address, hu⟩ := h.mem_iff.mp hu
    rw [hnone address u hu]
    exact Bool.false_ne_true

end Lists

/-- The addresses in a segment, in the order of `preorder`. -/
def addresses : Segment → List (List Nat) :=
  fold fun _ below => [] :: below.zipIdx.flatMap fun e => e.1.map (e.2 :: ·)

/-- The addresses in a list of segments, in the order in which they are walked over. -/
def addressesIn (l : List Segment) : List (List Nat) :=
  l.zipIdx.flatMap fun e => e.1.addresses.map (e.2 :: ·)

theorem addresses_eq (s : Segment) : s.addresses = [] :: addressesIn s.subsegments := by
  rw [addresses, fold_eq, addressesIn, List.zipIdx_map, List.flatMap_map]
  rfl

/-- The addresses in a list of segments lead into one of them first. -/
theorem mem_addressesIn {l : List Segment} {address : List Nat} :
    address ∈ addressesIn l ↔
      ∃ i s inner, l[i]? = some s ∧ inner ∈ s.addresses ∧ address = i :: inner := by
  unfold addressesIn
  rw [List.mem_flatMap]
  constructor
  · rintro ⟨⟨s, i⟩, hs, h⟩
    obtain ⟨inner, hinner, rfl⟩ := List.mem_map.mp h
    exact ⟨i, s, inner, List.mk_mem_zipIdx_iff_getElem?.mp hs, hinner, rfl⟩
  · rintro ⟨i, s, inner, hs, hinner, rfl⟩
    exact ⟨(s, i), List.mk_mem_zipIdx_iff_getElem?.mpr hs, List.mem_map_of_mem hinner⟩

/-- A list of segments is walked over address by address, if each of the segments is. -/
theorem lists_addressesIn {l : List Segment}
    (h : ∀ s ∈ l, Lists s.at? s.addresses s.preorder) :
    Lists (standing l) (addressesIn l) (walk l) where
  sorted := by
    refine List.pairwise_flatMap.mpr ⟨?_, ?_⟩
    · rintro ⟨s, i⟩ hs
      have hs := List.mem_of_getElem? (List.mk_mem_zipIdx_iff_getElem?.mp hs)
      exact List.pairwise_map.mpr ((h s hs).sorted.imp fun hlt =>
        List.cons_lt_cons_iff.mpr (.inr ⟨rfl, hlt⟩))
    -- addresses in different segments are told apart by their first number
    · have hindices : (l.zipIdx.map Prod.snd).Pairwise (· < ·) := by
        rw [List.zipIdx_map_snd]
        exact List.pairwise_lt_range'
      refine (List.pairwise_map.mp hindices).imp ?_
      rintro ⟨s, i⟩ ⟨u, j⟩ hij a ha b hb
      obtain ⟨a, -, rfl⟩ := List.mem_map.mp ha
      obtain ⟨b, -, rfl⟩ := List.mem_map.mp hb
      exact List.cons_lt_cons_iff.mpr (.inl hij)
  mem address := by
    rw [mem_addressesIn]
    cases address with
    | nil => simp [standing]
    | cons i address =>
        simp only [standing, List.cons.injEq]
        constructor
        · rintro ⟨_, s, _, hs, hinner, rfl, rfl⟩
          rw [hs, Option.bind_some]
          exact ((h s (List.mem_of_getElem? hs)).mem address).mp hinner
        · intro hsome
          cases hs : l[i]? with
          | none => simp [hs] at hsome
          | some s =>
              rw [hs, Option.bind_some] at hsome
              exact ⟨i, s, address, hs, ((h s (List.mem_of_getElem? hs)).mem address).mpr hsome,
                rfl, rfl⟩
  map := by
    have heach : ∀ e ∈ l.zipIdx, (e.1.addresses.map (e.2 :: ·)).map (standing l)
        = e.1.preorder.map some := by
      rintro ⟨s, i⟩ hs
      have hs := List.mk_mem_zipIdx_iff_getElem?.mp hs
      rw [← (h s (List.mem_of_getElem? hs)).map, List.map_map]
      refine List.map_congr_left fun address _ => ?_
      rw [Function.comp_apply, standing, hs, Option.bind_some]
    rw [addressesIn, List.map_flatMap, List.flatMap_congr heach, walk_eq, ← List.flatMap_def,
      List.map_flatMap]
    -- the walk forgets in which segment of the list it is
    conv_rhs => rw [← List.zipIdx_map_fst 0 l, List.flatMap_map]

/-- A segment and all nested in it stand in the order of their addresses. -/
theorem lists_preorder (s : Segment) : Lists s.at? s.addresses s.preorder := by
  induction s using induction with
  | step s ih =>
      have hnested := lists_addressesIn ih
      -- inside the segment an address leads where it leads in the list of those directly in it
      have hstands : ∀ address ∈ addressesIn s.subsegments,
          s.at? address = standing s.subsegments address := by
        intro address haddress
        obtain ⟨i, c, inner, -, -, rfl⟩ := mem_addressesIn.mp haddress
        rfl
      rw [addresses_eq]
      refine ⟨List.pairwise_cons.mpr ⟨fun address haddress => ?_, hnested.sorted⟩,
        fun address => ?_, ?_⟩
      · obtain ⟨i, c, inner, -, -, rfl⟩ := mem_addressesIn.mp haddress
        exact List.nil_lt_cons _ _
      · cases address with
        | nil => simp [Segment.at?]
        | cons i address =>
            rw [List.mem_cons, hnested.mem, or_iff_right (List.cons_ne_nil _ _)]
            rfl
      · rw [List.map_cons, List.map_congr_left hstands, hnested.map, preorder_eq_cons]
        rfl

/-- The walk meets all that stands somewhere, in lexicographic order. -/
theorem lists_walk (l : List Segment) : Lists (standing l) (addressesIn l) (walk l) :=
  lists_addressesIn fun s _ => lists_preorder s

/-! ### What is asked of all levels -/

/-- What is asked of a segment and all that is nested in it. -/
structure Enumerated (s : Segment) : Prop where
  /-- A stack of segments, at first those directly in the segment, ends up empty, and then the
  descendants have been met. -/
  iterates : ∀ met, Iterates s.subsegments.reverse met ↔ met = s.descendants
  /-- Each nested segment stands before those nested in it. -/
  recursion : s.descendants = s.subsegments.flatMap fun c => c :: c.descendants
  /-- No other function satisfies this recursion. -/
  unique : ∀ pre : Segment → List Segment,
    (∀ u, pre u = u.subsegments.flatMap fun c => c :: pre c) → pre s = s.descendants
  /-- Each address at which a segment is nested is met once, in lexicographic order. -/
  places : ∃ addresses, Lists (standing s.subsegments) addresses s.descendants
  itself : s ∉ s.descendants
  /-- The links of a kind are those of the segment, and then those of its descendants. -/
  links : ∀ kind, s.linksOf kind =
    (s :: s.descendants).flatMap fun d => d.links.filter fun link => link.kind == kind
  errors : s.hasErrors = true ↔ ∃ address d, s.at? address = some d ∧
    (d.error = true ∨ d.fault = true ∨ d.throttle = true)

theorem isFlagged_iff {s : Segment} :
    s.isFlagged = true ↔ s.error = true ∨ s.fault = true ∨ s.throttle = true := by
  simp [isFlagged, or_assoc]

/-- Errors are looked for in a segment and in all that is nested in it. -/
theorem hasErrors_eq (s : Segment) : s.hasErrors = s.preorder.any isFlagged := by
  rw [preorder_eq_cons, List.any_cons, hasErrors]

/-- A segment on a list is flagged if one stands somewhere that is. -/
theorem Lists.any_isFlagged {stands : List Nat → Option Segment} {addresses : List (List Nat)}
    {listed : List Segment} (h : Lists stands addresses listed) :
    listed.any isFlagged = true ↔ ∃ address d, stands address = some d ∧
      (d.error = true ∨ d.fault = true ∨ d.throttle = true) := by
  simp only [List.any_eq_true, h.mem_iff, isFlagged_iff]
  constructor
  · rintro ⟨d, ⟨address, hd⟩, hflagged⟩
    exact ⟨address, d, hd, hflagged⟩
  · rintro ⟨address, d, hd, hflagged⟩
    exact ⟨d, ⟨address, hd⟩, hflagged⟩

/-- What is asked of a segment is answered from the list of its descendants. -/
theorem enumerated_segment (s : Segment) : s.Enumerated where
  iterates _ := iterates_iff
  recursion := descendants_eq s
  unique _ h := eq_descendants h s
  places := ⟨_, lists_walk s.subsegments⟩
  itself h := Nat.lt_irrefl _ (sizeOf_lt_of_mem_descendants h)
  links kind := by
    rw [linksOf, List.flatMap_cons, List.filter_append, List.filter_flatMap]
  errors := by
    rw [hasErrors_eq]
    exact (lists_preorder s).any_isFlagged

/-- As many segments are met as there are. -/
theorem length_walk (l : List Segment) : (walk l).length = totalSize l := by
  induction l using walk.induct with
  | case1 => rw [walk]; rfl
  | case2 s pending ih =>
      rw [walk, List.length_cons, ih, totalSize_append, totalSize_cons, size_eq]
      omega

end Segment

namespace Trace

open Segment

/-- What is asked of all segments of a trace. -/
structure Enumerated (t : Trace) : Prop where
  /-- Each address at which there is a segment is met once, in lexicographic order. -/
  places : ∃ addresses, Lists (standing t.segments) addresses t.all
  /-- A segment counts for one more than the segments nested in it. -/
  count : t.count = totalSize t.segments
  /-- With an id, the segment is found that stands at the first address of one. -/
  first : ∀ id s, t.find? id = some s ↔ ∃ address, standing t.segments address = some s ∧
    s.id = id ∧ ∀ earlier < address, ∀ u, standing t.segments earlier = some u → u.id ≠ id
  missing : ∀ id, t.find? id = none ↔
    ∀ address u, standing t.segments address = some u → u.id ≠ id
  errors : t.hasErrors = true ↔ ∃ address s, standing t.segments address = some s ∧
    (s.error = true ∨ s.fault = true ∨ s.throttle = true)

theorem all_eq_walk (t : Trace) : t.all = walk t.segments := by
  rw [all, walk_eq, List.flatMap_def]
  exact congrArg List.flatten (List.map_congr_left fun s _ => (preorder_eq_cons s).symm)

/-- The errors of a trace are those of any segment in it. -/
theorem hasErrors_eq (t : Trace) : t.hasErrors = t.all.any isFlagged := by
  rw [hasErrors, all, List.any_flatMap]
  rfl

/-- What is asked of a trace is answered from the list of all its segments, in the order of their
addresses. -/
theorem enumerated_trace (t : Trace) : t.Enumerated := by
  have hlists : Lists (standing t.segments) (addressesIn t.segments) t.all :=
    t.all_eq_walk ▸ lists_walk t.segments
  constructor
  case places => exact ⟨_, hlists⟩
  case count => rw [count, all_eq_walk, length_walk]
  case first =>
    intro id s
    rw [find?, hlists.find?_eq_some]
    simp only [beq_iff_eq, beq_eq_false_iff_ne]
  case missing =>
    intro id
    rw [find?, hlists.find?_eq_none]
    simp only [beq_eq_false_iff_ne]
  case errors =>
    rw [hasErrors_eq]
    exact hlists.any_isFlagged

/-- The descendants of a segment are enumerated recursively, and all segments of a trace are found,
counted and searched in that order. -/
theorem enumerated : (∀ s : Segment, s.Enumerated) ∧ ∀ t : Trace, t.Enumerated :=
  ⟨enumerated_segment, enumerated_trace⟩

end Trace

end CausalTrace
