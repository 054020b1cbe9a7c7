import CausalTrace.Proofs.Assembly.Outline
import CausalTrace.Proofs.Backend.Coupling

/-!
# Layouts by position

A layout names the segments of a trace by their ids.  Here the same layout is worked out by
position: a segment is named by where it stands in the list of the trace, ids lead to positions, and
what stands at a position is looked up each time it is needed.  Looking up what is out of range ends
the whole computation, without a layout and without a failure.  It never comes to that, and the
positions say what the layout says.

## Main definitions

* `Layout.ByPosition`, `Layout.byPosition?` — the layout of a trace, by position
* `Layout.copies` — the segments that count, each with its position
* `Layout.ByPosition.Says` — positions that say what a layout says

## Main statements

* `Layout.firsts?_eq`, `Layout.nesting?_eq` — where ids lead to
* `Layout.hangAt?_eq` — what hangs below a position
* `Layout.byPosition?_eq` — all positions are in range, and say what the layout says

## Design notes

`none` stands for a position out of range, and for nothing else: that a trace has no layout is a
result, as it is in `Layout.ofTrace`.  The bridge between positions and ids is the list of copies,
whose first components are the segments that a layout counts and whose second components are the
positions that are met here.
-/

namespace CausalTrace

/-- What is done to every element of a list, and never fails on any of them. -/
theorem mapM_eq_some {α β : Type} {f : α → Option β} {g : α → β} :
    ∀ {l : List α}, (∀ x ∈ l, f x = some (g x)) → l.mapM f = some (l.map g) := by
  intro l
  induction l with
  | nil => exact fun _ => rfl
  | cons x rest ih =>
      intro h
      rw [List.mapM_cons, h x List.mem_cons_self, ih fun y hy => h y (List.mem_cons_of_mem _ hy)]
      rfl

/-- Changes what stands at an index, which must be in range. -/
def modifyAt? {α : Type} (xs : Array α) (i : Nat) (f : α → α) : Option (Array α) :=
  if i < xs.size then some (xs.modify i f) else none

theorem modifyAt?_eq_some {α : Type} {xs : Array α} {i : Nat} (f : α → α) (h : i < xs.size) :
    modifyAt? xs i f = some (xs.modify i f) := if_pos h

theorem Agree.map_right {ε α β γ : Type} {V : α → β → Prop} {W : α → γ → Prop} {f : β → γ}
    {x : Except ε α} {y : Except ε β} (h : Agree V x y) (hf : ∀ a b, V a b → W a (f b)) :
    Agree W x (y.map f) := by
  cases h with
  | ok h => exact .ok (hf _ _ h)
  | error e => exact .error e

namespace Layout

/-! ### The layout, by position -/

/-- A layout that names segments by their positions in the trace. -/
structure ByPosition where
  root : Nat
  /-- For each segment, the positions of those that hang below it. -/
  below : Array (List Nat)

/-- The positions of segments, by start time; those that start at the same time stay in order. -/
def order? (segments : List Segment) : Option (List Nat) := do
  let starts ← (List.range segments.length).mapM fun i => segments[i]?.map fun s => (s.start, i)
  return (starts.mergeSort fun a b => decide (a.1 ≤ b.1)).map Prod.snd

/-- Of the segments at positions, the first with each id; and where ids lead to, with what was known
before. -/
def firsts? (segments : List Segment) :
    List Nat → Table String Nat → Option (List Nat × Table String Nat)
  | [], owners => some ([], owners)
  | i :: rest, owners => do
    let s ← segments[i]?
    if owners.contains s.id then firsts? segments rest owners
    else
      let (unique, owners') ← firsts? segments rest (owners.insert s.id i)
      return (i :: unique, owners')

/-- An id leads to a position, unless it leads to another one already. -/
def noteId (i : Nat) (owners : Table String Nat) (id : String) : Table String Nat :=
  if owners.contains id then owners else owners.insert id i

/-- Where ids lead to, with those of the segments that are nested in the ones at positions. -/
def nesting? (segments : List Segment) : List Nat → Table String Nat → Option (Table String Nat)
  | [], owners => some owners
  | i :: rest, owners => do
    let s ← segments[i]?
    nesting? segments rest ((s.descendants.map Segment.id).foldl (noteId i) owners)

/-- The segment that comes before all others, with its position. -/
def earliestAt? : List (Segment × Nat) → Option (Segment × Nat)
  | [] => none
  | c :: rest =>
    match earliestAt? rest with
    | none => some c
    | some d => if precedes d.1 c.1 then some d else some c

/-- The position of the root, if there is one. -/
def rootAt? (segments : List Segment) (designated : Option String) (unique : List Nat) :
    Option (Option Nat) := do
  let counted ← unique.mapM fun i => segments[i]?.map fun s => (s, i)
  return (earliestAt? (counted.filter fun c => isCandidate designated c.1)).map Prod.snd

/-- What hangs below each position, when the segments at positions are added to it. -/
def hangAt? (segments : List Segment) (trace : TraceId) (designated : Option String)
    (policy : OrphanPolicy) (owners : Table String Nat) (root : Nat) :
    List Nat → Array (List Nat) → Option (Except Failure (Array (List Nat)))
  | [], below => some (.ok below)
  | i :: rest, below => do
    let more := hangAt? segments trace designated policy owners root rest
    if i = root then more below
    else
      let s ← segments[i]?
      match s.parent with
      | none => more below
      | some parent =>
        match owners.get? parent with
        | some owner =>
          if owner = i then more below
          else
            let below' ← modifyAt? below owner fun positions => positions ++ [i]
            more below'
        | none =>
          if designated = some parent then more below
          else
            match policy with
            | .prune => more below
            | .retry => return .error (.parentMissing trace s.id parent)
            | .fail => return .error (.orphaned trace s.id parent)

/-- The layout of a trace, by position. -/
def byPosition? (t : Trace) (designated : Option String) (policy : OrphanPolicy) :
    Option (Except Failure ByPosition) := do
  let order ← order? t.segments
  let (unique, own) ← firsts? t.segments order []
  let owners ← nesting? t.segments unique own
  match ← rootAt? t.segments designated unique with
  | none => return .error (.rootNotFound t.id)
  | some root =>
    let below ← hangAt? t.segments t.id designated policy owners root unique
      (Array.replicate t.segments.length [])
    return below.map fun below => ⟨root, below⟩

/-! ### Copies -/

/-- Segments and their positions, by start time. -/
def sorted (segments : List Segment) : List (Segment × Nat) :=
  segments.zipIdx.mergeSort fun a b => decide (a.1.start ≤ b.1.start)

/-- The first copy of each segment, with its position. -/
def copiesOf : List (Segment × Nat) → List (Segment × Nat)
  | [] => []
  | c :: rest => c :: (copiesOf rest).filter fun d => d.1.id ≠ c.1.id

/-- The segments of a trace that count, with their positions, by start time. -/
def copies (t : Trace) : List (Segment × Nat) := copiesOf (sorted t.segments)

/-- The copies picked with their positions are the first copies. -/
theorem map_fst_copiesOf (l : List (Segment × Nat)) :
    (copiesOf l).map Prod.fst = firstCopies (l.map Prod.fst) := by
  induction l with
  | nil => rfl
  | cons c rest ih =>
      rw [copiesOf, List.map_cons, List.map_cons, firstCopies, ← ih, List.filter_map]
      rfl

theorem copiesOf_sublist (l : List (Segment × Nat)) : (copiesOf l).Sublist l := by
  induction l with
  | nil => exact .slnil
  | cons c rest ih => exact .cons_cons c (List.filter_sublist.trans ih)

/-- The copies of a trace are the segments that count. -/
theorem map_fst_copies (t : Trace) : (copies t).map Prod.fst = counted t := by
  have hsorted : (sorted t.segments).map Prod.fst = inStartOrder t.segments := by
    rw [sorted, inStartOrder, List.map_mergeSort (f := Prod.fst)
      (s := fun (s u : Segment) => decide (s.start ≤ u.start)) fun _ _ _ _ => rfl,
      List.zipIdx_map_fst]
  rw [copies, map_fst_copiesOf, hsorted]
  rfl

theorem getElem?_of_mem_sorted {segments : List Segment} {c : Segment × Nat}
    (h : c ∈ sorted segments) : segments[c.2]? = some c.1 :=
  List.mem_zipIdx_iff_getElem?.mp (List.mem_mergeSort.mp h)

theorem getElem?_of_mem_copies {t : Trace} {c : Segment × Nat} (h : c ∈ copies t) :
    t.segments[c.2]? = some c.1 :=
  getElem?_of_mem_sorted ((copiesOf_sublist _).subset h)

/-- Copies with one id are at one position, and the other way round. -/
theorem copies_id_iff {t : Trace} {c d : Segment × Nat} (hc : c ∈ copies t) (hd : d ∈ copies t) :
    c.1.id = d.1.id ↔ c.2 = d.2 := by
  have hnodup : ((copies t).map fun c => c.1.id).Nodup := by
    have h := nodup_ids_firstCopies (inStartOrder t.segments)
    rw [show firstCopies (inStartOrder t.segments) = counted t from rfl, ← map_fst_copies,
      List.map_map] at h
    exact h
  constructor
  · intro hid
    rw [List.inj_on_of_nodup_map hnodup hc hd hid]
  · intro hposition
    have hsome := getElem?_of_mem_copies hc
    rw [hposition, getElem?_of_mem_copies hd] at hsome
    rw [Option.some.inj hsome]

/-! ### The order of the segments, and their ids -/

/-- The positions by start time are those of the segments by start time; none is out of range. -/
theorem order?_eq (segments : List Segment) :
    order? segments = some ((sorted segments).map Prod.snd) := by
  have hstarts : (List.range segments.length).mapM
      (fun i => segments[i]?.map fun s => (s.start, i))
      = some (segments.zipIdx.map fun c => (c.1.start, c.2)) := by
    rw [List.range_eq_range', ← List.zipIdx_map_snd 0 segments, List.mapM_map]
    refine mapM_eq_some fun c hc => ?_
    rw [Function.comp_apply, List.mem_zipIdx_iff_getElem?.mp hc, Option.map_some]
  unfold order?
  rw [hstarts]
  simp only [Option.bind_eq_bind, Option.bind_some, Option.pure_def, Option.some.injEq]
  rw [sorted, ← List.map_mergeSort (f := fun c : Segment × Nat => (c.1.start, c.2))
    (r := fun a b => decide (a.1.start ≤ b.1.start)) fun _ _ _ _ => rfl, List.map_map]
  rfl

theorem contains_iff {owners : Table String Nat} {id : String} :
    owners.contains id = true ↔ ∃ i, owners.get? id = some i := Option.isSome_iff_exists

theorem get?_eq_none {owners : Table String Nat} {id : String} (h : ¬ owners.contains id = true) :
    owners.get? id = none :=
  Option.not_isSome_iff_eq_none.mp h

/-- Ids other than that of a copy lead where they lead to without it. -/
theorem find?_copiesOf_cons {c : Segment × Nat} {id : String} (h : c.1.id ≠ id)
    (rest : List (Segment × Nat)) :
    (copiesOf (c :: rest)).find? (fun d => d.1.id == id)
      = (copiesOf rest).find? fun d => d.1.id == id := by
  rw [copiesOf, List.find?_cons_of_neg (by simpa using h), List.find?_filter]
  congr 1
  funext d
  by_cases hd : d.1.id = id <;> simp [hd, Ne.symm h]

/-- A copy with a known id is not new, nor is any other with that id. -/
theorem filter_copiesOf_known {owners : Table String Nat} {c : Segment × Nat}
    (h : owners.contains c.1.id = true) (rest : List (Segment × Nat)) :
    (copiesOf (c :: rest)).filter (fun d => !owners.contains d.1.id)
      = (copiesOf rest).filter fun d => !owners.contains d.1.id := by
  rw [copiesOf, List.filter_cons_of_neg (by simp [h]), List.filter_filter]
  apply List.filter_congr
  intro d _
  by_cases hd : d.1.id = c.1.id <;> simp [hd, h]

/-- A copy with an id that is not known is new, and then its id is known. -/
theorem filter_copiesOf_new {owners : Table String Nat} {c : Segment × Nat}
    (h : ¬ owners.contains c.1.id = true) (rest : List (Segment × Nat)) :
    (copiesOf (c :: rest)).filter (fun d => !owners.contains d.1.id)
      = c :: (copiesOf rest).filter fun d => !(owners.insert c.1.id c.2).contains d.1.id := by
  rw [copiesOf, List.filter_cons_of_pos (by simp [h]), List.filter_filter]
  congr 1
  apply List.filter_congr
  intro d _
  unfold Table.contains
  rw [Table.get?_insert]
  by_cases hd : d.1.id = c.1.id
  · simp [hd]
  · simp [hd, Ne.symm hd]

/-- Of the segments at positions, those are first copies whose ids are new; and an id that is new
leads to its first copy. -/
theorem firsts?_eq {segments : List Segment} :
    ∀ {l : List (Segment × Nat)}, (∀ c ∈ l, segments[c.2]? = some c.1) →
      ∀ owners : Table String Nat, ∃ owners',
        firsts? segments (l.map Prod.snd) owners
          = some (((copiesOf l).filter fun c => !owners.contains c.1.id).map Prod.snd, owners') ∧
        ∀ id, owners'.get? id
          = (owners.get? id).or (((copiesOf l).find? fun c => c.1.id == id).map Prod.snd) := by
  intro l
  induction l with
  | nil => exact fun _ owners => ⟨owners, rfl, by simp [copiesOf]⟩
  | cons c rest ih =>
      intro hl owners
      have hrest := ih fun d hd => hl d (List.mem_cons_of_mem _ hd)
      rw [List.map_cons, firsts?, hl c List.mem_cons_self]
      simp only [Option.bind_eq_bind, Option.bind_some]
      by_cases hknown : owners.contains c.1.id = true
      · obtain ⟨owners', hfirsts, hget⟩ := hrest owners
        refine ⟨owners', ?_, fun id => ?_⟩
        · rw [if_pos hknown, hfirsts, filter_copiesOf_known hknown]
        · rw [hget]
          by_cases hid : c.1.id = id
          · obtain ⟨i, hi⟩ := contains_iff.mp hknown
            rw [← hid, hi, Option.some_or, Option.some_or]
          · rw [find?_copiesOf_cons hid]
      · obtain ⟨owners', hfirsts, hget⟩ := hrest (owners.insert c.1.id c.2)
        refine ⟨owners', ?_, fun id => ?_⟩
        · rw [if_neg hknown, hfirsts, filter_copiesOf_new hknown]
          rfl
        · rw [hget, Table.get?_insert]
          by_cases hid : c.1.id = id
          · rw [if_pos hid, ← hid, get?_eq_none hknown, Option.some_or, Option.none_or, copiesOf,
              List.find?_cons_of_pos (by simp)]
            rfl
          · rw [if_neg hid, find?_copiesOf_cons hid]

theorem get?_noteId (i : Nat) (owners : Table String Nat) (id other : String) :
    (noteId i owners id).get? other
      = (owners.get? other).or (if id = other then some i else none) := by
  unfold noteId
  by_cases hid : id = other
  · subst hid
    rw [if_pos rfl]
    by_cases hknown : owners.contains id = true
    · obtain ⟨j, hj⟩ := contains_iff.mp hknown
      rw [if_pos hknown, hj, Option.some_or]
    · rw [if_neg hknown, Table.get?_insert_self, get?_eq_none hknown, Option.none_or]
  · rw [if_neg hid, Option.or_none]
    split
    · rfl
    · rw [Table.get?_insert_of_ne _ _ hid]

/-- Of several ids, those that lead nowhere yet are made to lead to the position. -/
theorem get?_foldl_noteId (i : Nat) (ids : List String) (id : String) :
    ∀ owners : Table String Nat, (ids.foldl (noteId i) owners).get? id
      = (owners.get? id).or (if id ∈ ids then some i else none) := by
  induction ids with
  | nil => simp
  | cons first rest ih =>
      intro owners
      rw [List.foldl_cons, ih, get?_noteId, Option.or_assoc]
      congr 1
      by_cases hfirst : first = id
      · simp [hfirst]
      · rw [if_neg hfirst, Option.none_or]
        simp [Ne.symm hfirst]

/-- An id that leads nowhere yet leads to the first copy in which a segment with that id is
nested. -/
theorem nesting?_eq {segments : List Segment} :
    ∀ {l : List (Segment × Nat)}, (∀ c ∈ l, segments[c.2]? = some c.1) →
      ∀ owners : Table String Nat, ∃ owners',
        nesting? segments (l.map Prod.snd) owners = some owners' ∧
        ∀ id, owners'.get? id = (owners.get? id).or
          ((l.find? fun c => c.1.descendants.any fun d => d.id == id).map Prod.snd) := by
  intro l
  induction l with
  | nil => exact fun _ owners => ⟨owners, rfl, by simp⟩
  | cons c rest ih =>
      intro hl owners
      obtain ⟨owners', hnesting, hget⟩ := ih (fun d hd => hl d (List.mem_cons_of_mem _ hd))
        ((c.1.descendants.map Segment.id).foldl (noteId c.2) owners)
      refine ⟨owners', ?_, fun id => ?_⟩
      · rw [List.map_cons, nesting?, hl c List.mem_cons_self]
        exact hnesting
      · rw [hget, get?_foldl_noteId, Option.or_assoc, List.find?_cons]
        congr 1
        have hmem : (id ∈ c.1.descendants.map Segment.id)
            ↔ (c.1.descendants.any fun d => d.id == id) = true := by
          simp
        cases hnested : c.1.descendants.any fun d => d.id == id with
        | true => rw [if_pos (hmem.mpr hnested), Option.some_or]; rfl
        | false =>
            rw [if_neg (by rw [hmem, hnested]; exact Bool.false_ne_true), Option.none_or]

/-- Ids lead to positions as parent ids are resolved. -/
def LeadsTo (t : Trace) (owners : Table String Nat) : Prop :=
  ∀ id, ∃ found : Option (Segment × Nat), (∀ c ∈ found, c ∈ copies t) ∧
    owners.get? id = found.map Prod.snd ∧ resolve? (counted t) id = found.map Prod.fst

/-- The tables of ids that are filled by position lead where parent ids are resolved to. -/
theorem exists_leadsTo (t : Trace) :
    ∃ own owners, firsts? t.segments ((sorted t.segments).map Prod.snd) []
        = some ((copies t).map Prod.snd, own) ∧
      nesting? t.segments ((copies t).map Prod.snd) own = some owners ∧ LeadsTo t owners := by
  obtain ⟨own, hfirsts, hown⟩ :=
    firsts?_eq (fun c (hc : c ∈ sorted t.segments) => getElem?_of_mem_sorted hc) []
  obtain ⟨owners, hnesting, howners⟩ := nesting?_eq
    (fun c hc => getElem?_of_mem_copies (t := t) hc) own
  refine ⟨own, owners, ?_, hnesting, fun id => ?_⟩
  · rw [hfirsts, List.filter_eq_self.mpr]
    · rfl
    · exact fun _ _ => rfl
  · refine ⟨((copies t).find? fun c => c.1.id == id).or
      ((copies t).find? fun c => c.1.descendants.any fun d => d.id == id), fun c hc => ?_, ?_, ?_⟩
    · rcases Option.or_eq_some_iff.mp hc with hc | ⟨-, hc⟩ <;> exact List.mem_of_find?_eq_some hc
    · rw [howners, hown, Option.map_or]
      rfl
    · rw [resolve?, ← map_fst_copies, List.find?_map, List.find?_map, Option.orElse_eq_or,
        Option.map_or]
      rfl

/-! ### The root -/

/-- The earliest segment is the same with its position. -/
theorem map_fst_earliestAt? (l : List (Segment × Nat)) :
    (earliestAt? l).map Prod.fst = earliest? (l.map Prod.fst) := by
  induction l with
  | nil => rfl
  | cons c rest ih =>
      rw [List.map_cons, earliest?, earliestAt?, ← ih]
      cases earliestAt? rest with
      | none => rfl
      | some d =>
          simp only [Option.map_some]
          split <;> rfl

theorem mem_of_earliestAt? {l : List (Segment × Nat)} {c : Segment × Nat}
    (h : earliestAt? l = some c) : c ∈ l := by
  induction l with
  | nil => cases h
  | cons d rest ih =>
      rw [earliestAt?] at h
      cases hr : earliestAt? rest with
      | none =>
          rw [hr] at h
          cases h
          exact List.mem_cons_self
      | some u =>
          simp only [hr] at h
          split at h <;> cases h
          · exact List.mem_cons_of_mem _ (ih hr)
          · exact List.mem_cons_self

/-- The root by position is the root of the layout, if there is one. -/
theorem rootAt?_eq (t : Trace) (designated : Option String) :
    ∃ found : Option (Segment × Nat), (∀ c ∈ found, c ∈ copies t) ∧
      rootAt? t.segments designated ((copies t).map Prod.snd) = some (found.map Prod.snd) ∧
      earliest? ((counted t).filter (isCandidate designated)) = found.map Prod.fst := by
  refine ⟨earliestAt? ((copies t).filter fun c => isCandidate designated c.1),
    fun c hc => List.mem_of_mem_filter (mem_of_earliestAt? hc), ?_, ?_⟩
  · have hcounted : ((copies t).map Prod.snd).mapM
        (fun i => t.segments[i]?.map fun s => (s, i)) = some (copies t) := by
      rw [List.mapM_map, mapM_eq_some (g := id) fun c hc => ?_, List.map_id]
      rw [Function.comp_apply, getElem?_of_mem_copies hc]
      rfl
    unfold rootAt?
    rw [hcounted]
    rfl
  · rw [map_fst_earliestAt?, ← map_fst_copies, List.filter_map]
    rfl

/-! ### What hangs below a position -/

/-- Positions at which segments stand, each segment a copy. -/
def StandAt (t : Trace) (positions : List Nat) (segments : List Segment) : Prop :=
  List.Forall₂ (fun i s => (s, i) ∈ copies t) positions segments

/-- A segment that is left out attaches nothing. -/
theorem attach_cons_none {trace : TraceId} {designated : Option String} {policy : OrphanPolicy}
    {segments rest : List Segment} {s : Segment}
    (h : owner? trace designated policy segments s = .ok none) :
    attach trace designated policy segments (s :: rest)
      = attach trace designated policy segments rest := by
  rw [attach_cons, h]
  cases attach trace designated policy segments rest <;> rfl

/-- A segment with an owner is attached before the others. -/
theorem attach_cons_some {trace : TraceId} {designated : Option String} {policy : OrphanPolicy}
    {segments rest : List Segment} {s : Segment} {id : String}
    (h : owner? trace designated policy segments s = .ok (some id)) :
    attach trace designated policy segments (s :: rest)
      = (attach trace designated policy segments rest).map ((id, s) :: ·) := by
  rw [attach_cons, h]
  cases attach trace designated policy segments rest <;> rfl

/-- To what hangs below each position is added what is attached to the id of its segment. -/
def Added (t : Trace) (attached : List (String × Segment)) (below below' : Array (List Nat)) :
    Prop :=
  ∀ c ∈ copies t, ∀ old, below[c.2]? = some old →
    ∃ more, below'[c.2]? = some (old ++ more) ∧ StandAt t more (looseBelow attached c.1.id)

theorem Added.nil (t : Trace) (below : Array (List Nat)) : Added t [] below below :=
  fun _ _ old hold => ⟨[], by rw [hold, List.append_nil], .nil⟩

/-- One more segment is added below its owner. -/
theorem Added.cons {t : Trace} {attached : List (String × Segment)}
    {below below' : Array (List Nat)} {owner c : Segment × Nat} (howner : owner ∈ copies t)
    (hc : c ∈ copies t)
    (h : Added t attached (below.modify owner.2 fun positions => positions ++ [c.2]) below') :
    Added t ((owner.1.id, c.1) :: attached) below below' := by
  intro d hd old hold
  have hid := copies_id_iff howner hd
  obtain ⟨more, hmore, hstand⟩ := h d hd (if owner.2 = d.2 then old ++ [c.2] else old) (by
    rw [Array.getElem?_modify, hold]
    split <;> rfl)
  unfold looseBelow at hstand ⊢
  by_cases heq : owner.2 = d.2
  · rw [if_pos heq, List.append_assoc] at hmore
    refine ⟨_, hmore, ?_⟩
    rw [List.filter_cons_of_pos (by simpa using hid.mpr heq)]
    exact .cons hc hstand
  · rw [if_neg heq] at hmore
    refine ⟨_, hmore, ?_⟩
    rw [List.filter_cons_of_neg (by simpa using fun h => heq (hid.mp h))]
    exact hstand

section

variable {t : Trace} {owners : Table String Nat} {root : Segment × Nat}
  (designated : Option String) (policy : OrphanPolicy)

/-- A copy other than the root is left out, is refused, or has an owner to hang below. -/
inductive Placing (t : Trace) (c : Segment × Nat)
    (more : Array (List Nat) → Option (Except Failure (Array (List Nat))))
    (below : Array (List Nat)) : Option (Except Failure (Array (List Nat))) → Prop
  | leftOut : owner? t.id designated policy (counted t) c.1 = .ok none →
      Placing t c more below (more below)
  | refused {e : Failure} : owner? t.id designated policy (counted t) c.1 = .error e →
      Placing t c more below (some (.error e))
  | hung {owner : Segment × Nat} : owner ∈ copies t →
      owner? t.id designated policy (counted t) c.1 = .ok (some owner.1.id) →
      Placing t c more below (more (below.modify owner.2 fun positions => positions ++ [c.2]))

/-- One more segment is hung below the position of its owner, left out, or refused. -/
theorem hangAt?_cons (howners : LeadsTo t owners) {c : Segment × Nat} (hc : c ∈ copies t)
    (rest : List Nat) {below : Array (List Nat)} (hsize : below.size = t.segments.length)
    (hroot : c.2 ≠ root.2) :
    Placing designated policy t c
      (hangAt? t.segments t.id designated policy owners root.2 rest) below
      (hangAt? t.segments t.id designated policy owners root.2 (c.2 :: rest) below) := by
  rw [hangAt?, if_neg hroot, getElem?_of_mem_copies hc]
  simp only [Option.bind_eq_bind, Option.bind_some]
  cases hparent : c.1.parent with
  | none => exact .leftOut (by simp [owner?, hparent])
  | some parent =>
      obtain ⟨found, hfound, hget, hresolve⟩ := howners parent
      simp only [hget]
      cases found with
      | some owner =>
          have howner := hfound owner rfl
          -- a segment that would hang below itself is left out, by position as by id
          have hid := copies_id_iff howner hc
          simp only [Option.map_some]
          split
          · next heq => exact .leftOut (by simp [owner?, hparent, hresolve, hid.mpr heq])
          · next hne =>
              have hlt : owner.2 < below.size := by
                rw [hsize]
                exact (List.getElem?_eq_some_iff.mp (getElem?_of_mem_copies howner)).1
              rw [modifyAt?_eq_some _ hlt, Option.bind_some]
              have hne' : owner.1.id ≠ c.1.id := fun h => hne (hid.mp h)
              exact .hung howner (by simp [owner?, hparent, hresolve, hne'])
      | none =>
          simp only [Option.map_none]
          split
          · next hd => exact .leftOut (by simp [owner?, hparent, hresolve, hd])
          · next hd =>
              cases policy with
              | prune => exact .leftOut (by simp [owner?, hparent, hresolve, hd])
              | retry => exact .refused (by simp [owner?, hparent, hresolve, hd])
              | fail => exact .refused (by simp [owner?, hparent, hresolve, hd])

/-- The segments at positions are attached as those of a layout are. -/
theorem hangAt?_eq (howners : LeadsTo t owners) (hroot : root ∈ copies t) :
    ∀ l : List (Segment × Nat), (∀ c ∈ l, c ∈ copies t) → ∀ below : Array (List Nat),
      below.size = t.segments.length →
      ∃ result, hangAt? t.segments t.id designated policy owners root.2 (l.map Prod.snd) below
          = some result ∧
        Agree (fun below' attached => Added t attached below below') result
          (attach t.id designated policy (counted t)
            ((l.map Prod.fst).filter fun s => s.id ≠ root.1.id)) := by
  intro l
  induction l with
  | nil => exact fun _ below _ => ⟨_, rfl, .ok (.nil t below)⟩
  | cons c rest ih =>
      intro hl below hsize
      have hc := hl c List.mem_cons_self
      have hid := copies_id_iff hc hroot
      have hrest := fun d hd => hl d (List.mem_cons_of_mem _ hd)
      rw [List.map_cons, List.map_cons]
      by_cases hr : c.2 = root.2
      · rw [List.filter_cons_of_neg (by simpa using hid.mpr hr), hangAt?, if_pos hr]
        exact ih hrest below hsize
      · rw [List.filter_cons_of_pos (by simpa using fun h => hr (hid.mp h))]
        have hplacing := hangAt?_cons designated policy howners hc (rest.map Prod.snd) hsize hr
        -- only how the result comes from the rest matters from here on
        generalize hangAt? t.segments t.id designated policy owners root.2
          (c.2 :: rest.map Prod.snd) below = result at hplacing ⊢
        cases hplacing with
        | refused howner =>
            rw [attach_cons, howner]
            exact ⟨_, rfl, .error _⟩
        | leftOut howner =>
            rw [attach_cons_none howner]
            exact ih hrest below hsize
        | @hung owner hmem howner =>
            obtain ⟨result, hhang, hagree⟩ := ih hrest
              (below.modify owner.2 fun positions => positions ++ [c.2])
              (by rw [Array.size_modify, hsize])
            rw [attach_cons_some howner]
            exact ⟨result, hhang, hagree.map_right fun _ _ h => h.cons hmem hc⟩

end

/-! ### The layout -/

/-- Positions that say what a layout says. -/
structure ByPosition.Says (t : Trace) (p : ByPosition) (l : Layout) : Prop where
  root : (l.root, p.root) ∈ copies t
  below : ∀ c ∈ copies t, ∃ positions, p.below[c.2]? = some positions ∧
    StandAt t positions (looseBelow l.attached c.1.id)

/-- No position is out of range, and the positions say what the layout says. -/
theorem byPosition?_eq (t : Trace) (designated : Option String) (policy : OrphanPolicy) :
    ∃ result, byPosition? t designated policy = some result ∧
      Agree (ByPosition.Says t) result (ofTrace t designated policy) := by
  obtain ⟨own, owners, hfirsts, hnesting, howners⟩ := exists_leadsTo t
  obtain ⟨found, hfound, hrootAt, hearliest⟩ := rootAt?_eq t designated
  rw [byPosition?, order?_eq, ofTrace_eq, hearliest]
  simp only [Option.bind_eq_bind, Option.bind_some, hfirsts, hnesting, hrootAt]
  cases found with
  | none => exact ⟨_, rfl, .error _⟩
  | some root =>
      have hroot := hfound root rfl
      obtain ⟨result, hhang, hagree⟩ := hangAt?_eq designated policy howners hroot (copies t)
        (fun _ hc => hc) (Array.replicate t.segments.length []) Array.size_replicate
      simp only [Option.map_some, hhang, Option.bind_some]
      refine ⟨_, rfl, ?_⟩
      rw [map_fst_copies] at hagree
      generalize attach t.id designated policy (counted t)
        ((counted t).filter fun s => s.id ≠ root.1.id) = others at hagree ⊢
      cases hagree with
      | error e => exact .error e
      | @ok below attached hadded =>
          refine .ok ⟨hroot, fun c hc => ?_⟩
          have hlt := (List.getElem?_eq_some_iff.mp (getElem?_of_mem_copies hc)).1
          obtain ⟨more, hmore, hstand⟩ := hadded c hc []
            (by rw [Array.getElem?_replicate, if_pos hlt])
          exact ⟨more, by rwa [List.nil_append] at hmore, hstand⟩

end Layout

end CausalTrace
