import CausalTrace.Proofs.Assembly.Outline
import CausalTrace.Proofs.Outcome
import Mathlib

/-!
# Which segments of a trace are placed

A layout places the root, what hangs below it, what hangs below that, and so on; it keeps no record
of what it has placed.  From a segment that is placed one comes to the root by climbing from a
segment to the one that its parent id means; from all others one ends at a segment that is put below
none, or goes round in a cycle.

## Main definitions

* `Reference.Resolves`, `Reference.Climbs` — from a segment to the one that its parent id means
* `Layout.Unrecorded` — placement without a record of what has been placed
* `Layout.Descent` — what is placed, and where

## Main statements

* `Layout.unrecorded_hang` — placement without a record ends with what the layout has hung
* `Layout.mem_placed_iff` — what is placed is what leads up to the root
* `Layout.descent_of_ofTrace`

## Design notes

What a layout attaches is a list, and `Layout.hang` takes from it what it places, so that it ends
whatever the list is.  A placement that takes nothing from the list ends only because of what is on
it: no id hangs below two others, and the root below none.  A derivation of `Layout.Unrecorded` is a
run of that placement which has come to its end, so that one exists says that the placement ends.

Climbing ends at the root.  The parent of the root may be in the trace as well, if the caller names
it, but the root is not put below it; a way that goes on from the root is no way up.
-/

namespace CausalTrace

namespace Reference

/-! ### From a segment to its parent -/

/-- The parent id of a segment means a segment. -/
def Resolves (counted : List Segment) (s u : Segment) : Prop :=
  s ∈ counted ∧ ∃ parent, s.parent = some parent ∧ Means counted parent u

/-- A step up: from a segment other than the root to the one that its parent id means. -/
def Climbs (counted : List Segment) (root s u : Segment) : Prop := s ≠ root ∧ Resolves counted s u

/-- A segment other than the root that is put below none: its parent id means nothing in the trace,
or the segment itself, or it has none. -/
def LeftOut (counted : List Segment) (root s : Segment) : Prop :=
  s ∈ counted ∧ s ≠ root ∧ ∀ u, Resolves counted s u → u = s

variable {t : Trace}

theorem Resolves.unique {s u v : Segment} (hu : Resolves (Layout.counted t) s u)
    (hv : Resolves (Layout.counted t) s v) : u = v := by
  obtain ⟨-, parent, hparent, hmeans⟩ := hu
  obtain ⟨-, parent', hparent', hmeans'⟩ := hv
  obtain rfl := Option.some.inj (hparent.symm.trans hparent')
  exact Option.some.inj ((means_iff.mp hmeans).symm.trans (means_iff.mp hmeans'))

/-- What a layout attaches to the id of a segment climbs to that segment. -/
theorem mem_looseBelow_iff {designated : Option String} {policy : OrphanPolicy} {l : Layout}
    {s c : Segment} (h : Layout.ofTrace t designated policy = .ok l) (hs : s ∈ Layout.counted t) :
    c ∈ Layout.looseBelow l.attached s.id ↔ Climbs (Layout.counted t) l.root c s ∧ s ≠ c := by
  rw [mem_looseBelow h hs, Climbs, Resolves, ne_comm (a := s)]
  exact ⟨fun ⟨hc, hroot, hne, hparent⟩ => ⟨⟨hroot, hc, hparent⟩, hne⟩,
    fun ⟨⟨hroot, hc, hparent⟩, hne⟩ => ⟨hc, hroot, hne, hparent⟩⟩

end Reference

namespace Layout

open Reference

/-! ### Placement without a record -/

/-- Placement that keeps no record: all that is attached to the segment that is taken from the stack
goes onto it, whether it has been placed before or not. -/
inductive Unrecorded (attached : List (String × Segment)) :
    List (Nat × String) → Nat → List (Nat × Segment) → Prop
  | done {next : Nat} : Unrecorded attached [] next []
  | step {node next : Nat} {id : String} {rest : List (Nat × String)}
      {hung : List (Nat × Segment)} :
      Unrecorded attached ((numbered next (looseBelow attached id)).reverse ++ rest)
        (next + (looseBelow attached id).length) hung →
      Unrecorded attached ((node, id) :: rest) next
        ((looseBelow attached id).map (fun c => (node, c)) ++ hung)

/-- Placement without a record has one result at most. -/
theorem Unrecorded.unique {attached : List (String × Segment)} {stack : List (Nat × String)}
    {next : Nat} {hung hung' : List (Nat × Segment)} (h : Unrecorded attached stack next hung)
    (h' : Unrecorded attached stack next hung') : hung = hung' := by
  induction h generalizing hung' with
  | done =>
      cases h'
      rfl
  | step _ ih =>
      cases h' with
      | step h' => rw [ih h']

/-- As long as no id is both on the stack and among the loose segments, or twice on either,
placement takes from the loose segments just what it would find among all that are attached. -/
theorem unrecorded_hang {attached : List (String × Segment)} (stack : List (Nat × String))
    (next : Nat) (loose : List (String × Segment)) :
    (stack.map Prod.snd ++ loose.map fun e => e.2.id).Nodup →
    (∀ id ∈ stack.map Prod.snd ++ loose.map fun e => e.2.id,
      looseBelow attached id = looseBelow loose id) →
    Unrecorded attached stack next (hang stack next loose) := by
  fun_induction hang stack next loose with
  | case1 next loose => exact fun _ _ => .done
  | case2 next loose node id rest children ih =>
      intro hnodup hloose
      rw [List.map_cons, List.cons_append] at hnodup hloose
      obtain ⟨hid, hrest⟩ := List.nodup_cons.mp hnodup
      have hchildren : looseBelow attached id = children := hloose id List.mem_cons_self
      have hunrecorded := ih (nodup_ids_step hrest) fun other hother => by
        have hmem := (perm_ids_step rest next loose id).mem_iff.mp hother
        -- the id that is taken from the stack does not come back to it
        have hne : other ≠ id := by
          rintro rfl
          exact hid hmem
        rw [hloose other (List.mem_cons_of_mem _ hmem), looseBelow_looseElse hne]
      rw [← hchildren] at hunrecorded ⊢
      exact .step hunrecorded

section

variable {t : Trace} {designated : Option String} {policy : OrphanPolicy} {l : Layout}

/-- Placement without a record ends, and ends with what the layout has hung. -/
theorem unrecorded_iff (h : ofTrace t designated policy = .ok l) {hung : List (Nat × Segment)} :
    Unrecorded l.attached [(0, l.root.id)] 1 hung ↔ hung = l.hung := by
  have hhung : Unrecorded l.attached [(0, l.root.id)] 1 l.hung :=
    unrecorded_hang _ _ _ (by simpa using nodup_ids h) fun _ _ => rfl
  constructor
  · exact fun hung => hung.unique hhung
  · rintro rfl
    exact hhung

/-! ### The way up -/

/-- What is placed is what leads up to the root, without a step from a segment to itself. -/
theorem mem_placed_iff (h : ofTrace t designated policy = .ok l) {s : Segment} :
    s ∈ l.placed ↔
      Relation.ReflTransGen (fun c u => Resolves (counted t) c u ∧ u ≠ c) s l.root := by
  constructor
  · intro hs
    refine placed_induction h (Q := fun c => Relation.ReflTransGen
      (fun c u => Resolves (counted t) c u ∧ u ≠ c) c l.root) .refl (fun u hu hup c hc => ?_) s hs
    obtain ⟨⟨-, hresolves⟩, hne⟩ := (mem_looseBelow_iff h (mem_counted_of_mem_placed h hu)).mp hc
    exact .head ⟨hresolves, hne⟩ hup
  · intro hup
    induction hup using Relation.ReflTransGen.head_induction_on with
    | refl => exact List.mem_cons_self
    | @head c u hcu _ hu =>
        -- the way may pass through the root, which is placed for another reason
        by_cases hc : c = l.root
        · rw [hc]
          exact List.mem_cons_self
        · exact mem_placed_of_below h hu
            ((mem_looseBelow_iff h (mem_counted_of_mem_placed h hu)).mpr ⟨⟨hc, hcu.1⟩, hcu.2⟩)

/-- A segment on a cycle of parents is not placed. -/
theorem not_mem_placed_of_cycle (h : ofTrace t designated policy = .ok l) {s : Segment}
    (hcycle : Relation.TransGen (Climbs (counted t) l.root) s s) : s ∉ l.placed := by
  intro hs
  refine placed_induction h (Q := fun u => ¬ Relation.TransGen (Climbs (counted t) l.root) u u)
    ?_ (fun u hu hno c hc hround => ?_) s hs hcycle
  · intro hround
    obtain ⟨u, ⟨hroot, -⟩, -⟩ := Relation.TransGen.head'_iff.mp hround
    exact hroot rfl
  · -- the first step of the cycle leads to the segment above, which then is on it as well
    obtain ⟨hup, -⟩ := (mem_looseBelow_iff h (mem_counted_of_mem_placed h hu)).mp hc
    obtain ⟨v, hv, hback⟩ := Relation.TransGen.head'_iff.mp hround
    obtain rfl := hup.2.unique hv.2
    exact hno (.tail' hback hup)

/-- A segment below one that is left out is not placed. -/
theorem not_mem_placed_of_leftOut (h : ofTrace t designated policy = .ok l) {s u : Segment}
    (hup : Relation.ReflTransGen (Climbs (counted t) l.root) s u)
    (hu : LeftOut (counted t) l.root u) : s ∉ l.placed := by
  intro hs
  refine placed_induction h
    (Q := fun c => ∀ v, Relation.ReflTransGen (Climbs (counted t) l.root) c v →
      ¬ LeftOut (counted t) l.root v) ?_ (fun w hw hno c hc v hcv hv => ?_) s hs u hup hu
  · intro v hv hout
    rcases hv.cases_head with rfl | ⟨_, ⟨hroot, -⟩, -⟩
    · exact hout.2.1 rfl
    · exact hroot rfl
  · obtain ⟨hcw, hne⟩ := (mem_looseBelow_iff h (mem_counted_of_mem_placed h hw)).mp hc
    rcases hcv.cases_head with rfl | ⟨_, hstep, hrest⟩
    · exact hne (hv.2.2 w hcw.2)
    · obtain rfl := hcw.2.unique hstep.2
      exact hno v hrest hv

/-- The segments placed are first copies, each copy once. -/
theorem exists_copies (h : ofTrace t designated policy = .ok l) :
    ∃ copies : List (Segment × Nat), copies.map Prod.fst = l.placed ∧ copies.Nodup ∧
      ∀ a, a ∈ copies ↔ FirstCopy t.segments a ∧ a.1 ∈ l.placed := by
  have hcopy : ∀ s ∈ l.placed, ∃ a : Segment × Nat, FirstCopy t.segments a ∧ a.1 = s := by
    intro s hs
    obtain ⟨i, hi⟩ := mem_counted_iff.mp (mem_counted_of_mem_placed h hs)
    exact ⟨(s, i), hi, rfl⟩
  obtain ⟨copies, hcopies⟩ := exists_forall₂ hcopy
  have hplaced : copies.map Prod.fst = l.placed := by
    rw [← List.forall₂_eq_eq_eq, List.forall₂_map_left_iff]
    exact hcopies.flip.imp fun _ _ ha => ha.2
  have hfirst : ∀ a ∈ copies, FirstCopy t.segments a := by
    intro a ha
    obtain ⟨s, -, hs⟩ := exists_of_mem_forall₂ hcopies.flip ha
    exact hs.1
  refine ⟨copies, hplaced, ?_, fun a => ⟨fun ha => ⟨hfirst a ha, ?_⟩, fun ⟨ha, hs⟩ => ?_⟩⟩
  · exact .of_map Prod.fst (hplaced ▸ .of_map Segment.id (nodup_ids_placed h))
  · rw [← hplaced]
    exact List.mem_map_of_mem ha
  · rw [← hplaced] at hs
    obtain ⟨b, hb, hba⟩ := List.mem_map.mp hs
    rwa [ha.unique (hfirst b hb) (congrArg Segment.id hba.symm)]

/-! ### Nodes -/

/-- A node below another is that of a segment which climbs to that of the other. -/
theorem climbs_of_mem_children (h : ofTrace t designated policy = .ok l) {base i c : Nat} {n : Node}
    (hn : (l.nodes base)[i]? = some n) (hc : c ∈ n.children) :
    ∃ m, (l.nodes base)[c - base]? = some m ∧
      Climbs (counted t) l.root m.segment n.segment ∧ n.segment ≠ m.segment := by
  rw [getElem?_nodes] at hn
  obtain ⟨s, hs, rfl⟩ := Option.map_eq_some_iff.mp hn
  obtain ⟨k, hk, rfl⟩ := List.mem_map.mp hc
  have hmem : l.placed[k]? ∈ (looseBelow l.attached s.id).map some := by
    rw [← segments_below h hs]
    exact List.mem_map_of_mem hk
  obtain ⟨u, hu, hplaced⟩ := List.mem_map.mp hmem
  refine ⟨⟨u, (below l.hung k).map (base + ·)⟩, ?_, ?_⟩
  · rw [Nat.add_sub_cancel_left, getElem?_nodes, ← hplaced]
    rfl
  · exact (mem_looseBelow_iff h
      (mem_counted_of_mem_placed h (List.mem_of_getElem? hs))).mp hu

end

/-! ### What is placed, and where -/

/-- Which segments of a trace are placed, and where, given those that count. -/
structure Descent (l : Layout) (t : Trace) (designated : Option String)
    (counted : List Segment) : Prop where
  outline : Outline t designated counted l.root
  /-- Placement ends, though it keeps no record of what it has placed. -/
  ends : ∀ hung, Unrecorded l.attached [(0, l.root.id)] 1 hung ↔ hung = l.hung
  first : l.placed.head? = some l.root
  /-- Placed are the first copies from which parents, resolved again and again, lead to the root and
  never from a segment to itself; each is placed once. -/
  copies : ∃ copies : List (Segment × Nat), copies.map Prod.fst = l.placed ∧ copies.Nodup ∧
    ∀ a, a ∈ copies ↔ FirstCopy t.segments a ∧
      Relation.ReflTransGen (fun c u => Resolves counted c u ∧ u ≠ c) a.1 l.root
  /-- There is a node for each segment placed. -/
  nodes : ∀ base, (l.nodes base).map Node.segment = l.placed
  /-- Every node but the first, which is that of the root, is below one node, and once. -/
  once : ∀ base, ((l.nodes base).flatMap Node.children).Perm
    (List.range' (base + 1) (l.placed.length - 1))
  /-- A node is below that of the segment which its parent id means. -/
  below : ∀ (base i : Nat) (n : Node), (l.nodes base)[i]? = some n → ∀ c ∈ n.children,
    ∃ m : Node, (l.nodes base)[c - base]? = some m ∧ Climbs counted l.root m.segment n.segment ∧
      n.segment ≠ m.segment
  /-- A segment on a cycle of parents, other than one that the root is on, is not placed. -/
  cycles : ∀ s, Relation.TransGen (Climbs counted l.root) s s → s ∉ l.placed
  /-- Neither is a segment that is put below none, and what leads up to it. -/
  leftOut : ∀ s u, Relation.ReflTransGen (Climbs counted l.root) s u → LeftOut counted l.root u →
    s ∉ l.placed

/-- Every trace that has a layout is placed from its root down. -/
theorem descent_of_ofTrace {t : Trace} {designated : Option String} {policy : OrphanPolicy}
    {l : Layout} (h : ofTrace t designated policy = .ok l) :
    ∃ counted, l.Descent t designated counted := by
  obtain ⟨copies, hplaced, hnodup, hcopies⟩ := exists_copies h
  refine ⟨counted t, ⟨outline_of_ofTrace h, fun _ => unrecorded_iff h, rfl, ?_, l.map_segment_nodes,
    l.perm_children_nodes, fun _ _ _ hn _ hc => climbs_of_mem_children h hn hc,
    fun _ => not_mem_placed_of_cycle h, fun _ _ => not_mem_placed_of_leftOut h⟩⟩
  refine ⟨copies, hplaced, hnodup, fun a => ?_⟩
  rw [hcopies, mem_placed_iff h]

/-! ### A trace with all that is left out -/

namespace Sample

/-- A segment with an id, perhaps a parent, a start time, and segments nested in it. -/
def segment (id : String) (parent : Option String) (start : UInt64) (nested : List Segment) :
    Segment :=
  { ({ id := some id, parent := parent } : WireSegment).segment id ⟨"1-t"⟩ [] with
    start := ⟨start⟩, subsegments := nested }

/-- The parent of this segment is nested in the next one, and is the one that the caller names. -/
def segmentR : Segment := segment "r" (some "n") 1 []

def segmentA : Segment := segment "a" (some "r") 2 [segment "n" none 2 []]

def segmentB : Segment := segment "b" (some "n") 3 []

/-- Two segments that are below each other. -/
def segmentX : Segment := segment "x" (some "y") 4 []

def segmentY : Segment := segment "y" (some "x") 5 []

/-- A segment below itself. -/
def segmentS : Segment := segment "s" (some "s") 6 []

/-- A segment whose parent is missing. -/
def segmentO : Segment := segment "o" (some "z") 7 []

def segmentP : Segment := segment "p" (some "o") 8 []

/-- A later copy of a segment, with another parent. -/
def copyA : Segment := segment "a" (some "b") 9 [segment "z" none 9 []]

def trace : Trace := ⟨⟨"1-t"⟩, none, false, [segmentP, copyA, segmentB, segmentY, segmentX,
  segmentR, segmentS, segmentA, segmentO]⟩

def layout : Layout := ⟨segmentR, [("r", segmentA), ("a", segmentB), ("y", segmentX),
  ("x", segmentY), ("o", segmentP)]⟩

theorem counted_trace : counted trace =
    [segmentR, segmentA, segmentB, segmentX, segmentY, segmentS, segmentO, segmentP] := by
  cbv

theorem ofTrace_trace : ofTrace trace (some "n") .prune = .ok layout := by cbv

end Sample

/-- A trace with copies, a cycle of parents, and segments that are left out, of which three are
placed. -/
theorem descent_sample :
    ofTrace Sample.trace (some "n") .prune = .ok Sample.layout ∧
      Sample.layout.placed = [Sample.segmentR, Sample.segmentA, Sample.segmentB] ∧
      ∃ counted, Sample.layout.Descent Sample.trace (some "n") counted :=
  ⟨Sample.ofTrace_trace, by cbv, descent_of_ofTrace Sample.ofTrace_trace⟩

end Layout

end CausalTrace
