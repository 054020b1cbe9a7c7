import CausalTrace.Proofs.Assembly.Indices
import CausalTrace.Proofs.Assembly.WellFormed

/-!
# What a run leaves as it is

Entering a trace only adds to an assembly: nodes behind those there are, traces under ids that had
none, links at the end of those not followed.  This also holds when it fails half way, and then the
traces being entered are the ones from before as well.  Following one link may change one of the
nodes there were, the one that holds the link, which gets a child at the end.

## Main definitions

* `Assembly.Grown` — what is kept apart from the nodes
* `Assembly.Spliced`, `Assembly.Noted` — entering a trace, and following a link

## Main statements

* `Assembly.respected_grown` — every step keeps what it should
* `Assembly.splice_appends` — entering a trace appends nodes
* `Assembly.framed` — both, for a run by index, which always has a result

## Design notes

While a trace is entered nodes do change: those of the trace itself hold the links that are
followed.  What is said of all links at once is therefore relative to some nodes in front that hold
none of them, and these are the nodes from before.
-/

namespace CausalTrace

namespace Assembly

variable {σ : Type} {l : Lookup σ} {options : Options}

/-! ### Apart from the nodes -/

/-- What a run keeps apart from the nodes, and of the nodes the segments. -/
structure Grown (a a' : Assembly σ) : Prop extends Frame a a' where
  unresolved : a.unresolved <+: a'.unresolved
  limit : a.linkLimitExceeded = true → a'.linkLimitExceeded = true

/-- No step of a run removes a node, changes the segment of one, or touches what the chain, the
remembered traces and the notes held before. -/
theorem respected_grown (l : Lookup σ) : Respected l Grown where
  refl a := ⟨(respected_frame l).refl a, List.prefix_refl _, id⟩
  trans h₁ h₂ := ⟨(respected_frame l).trans h₁.toFrame h₂.toFrame,
    h₁.unresolved.trans h₂.unresolved, h₂.limit ∘ h₁.limit⟩
  asked ht := ⟨(respected_frame l).asked ht, List.prefix_refl _, id⟩
  obtained := by
    intro a a' target t ho
    obtain ⟨-, -, hunresolved, hlimit⟩ := ho.same
    exact ⟨(respected_frame l).obtained ho, by rw [hunresolved], by rw [hlimit]; exact id⟩
  missing a u := ⟨(respected_frame l).missing a u, List.prefix_append _ _, id⟩
  tooDeep a u := ⟨(respected_frame l).tooDeep a u, List.prefix_append _ _, fun _ => rfl⟩
  attached a holder child :=
    ⟨(respected_frame l).attached a holder child, List.prefix_refl _, id⟩
  entered h := ⟨(respected_frame l).entered h.toFrame, h.unresolved, h.limit⟩

/-! ### The nodes -/

/-- What a node in front holds is not changed by a child for one behind them. -/
theorem prefix_attach {front : List Node} {nodes : Arena} {holder : Nat} (child : Nat)
    (h : front <+: nodes.toList) (hholder : front.length ≤ holder) :
    front <+: (Arena.attach nodes holder child).toList := by
  obtain ⟨rest, hrest⟩ := h
  obtain ⟨k, rfl⟩ := Nat.exists_eq_add_of_le hholder
  rw [Arena.attach, Array.toList_modify, ← hrest, modify_append]
  exact List.prefix_append _ _

/-- A child for a node in front changes the nodes in front alone. -/
theorem attach_prefix {nodes nodes' : Arena} {holder : Nat} (child : Nat)
    (h : nodes.toList <+: nodes'.toList) (hholder : holder < nodes.size) :
    (Arena.attach nodes holder child).toList <+: (Arena.attach nodes' holder child).toList := by
  obtain ⟨rest, hrest⟩ := h
  refine ⟨rest, ?_⟩
  rw [Arena.attach, Arena.attach, Array.toList_modify, Array.toList_modify, ← hrest]
  apply List.ext_getElem?
  intro i
  rcases Nat.lt_or_ge i nodes.toList.length with hi | hi
  · rw [List.getElem?_append_left (by simpa using hi), List.getElem?_modify, List.getElem?_modify,
      List.getElem?_append_left hi]
  · rw [List.getElem?_append_right (by simpa using hi), List.length_modify,
      List.getElem?_modify_ne _ _ (Nat.ne_of_lt (Nat.lt_of_lt_of_le hholder hi)),
      List.getElem?_append_right hi]

/-- Entering a trace leaves the nodes there were as they are, and the first new one is its root. -/
def Appends (enter : Trace → Action (Assembly σ) Nat) : Prop :=
  ∀ {t : Trace} {a a' : Assembly σ} {r : Except Failure Nat}, enter t a = (r, a') →
    a.nodes.toList <+: a'.nodes.toList ∧
      ∀ root, r = .ok root → root = a.nodes.size ∧ a.nodes.size < a'.nodes.size

section

variable {deeper : Option (Trace → Action (Assembly σ) Nat)}

/-- Following a link appends nodes, and then may put the first of them below the holder. -/
theorem FollowStep.nodes (hd : ∀ enter ∈ deeper, Appends enter) {holder : Nat} {s : Segment}
    {target : TraceId} {a a' : Assembly σ} {r : Except Failure Unit}
    (h : FollowStep l deeper holder s target a r a') :
    a.nodes.toList <+: a'.nodes.toList ∨
      r = .ok () ∧ ∃ nodes : Arena, a.nodes.toList <+: nodes.toList ∧ a.nodes.size < nodes.size ∧
        a'.nodes = Arena.attach nodes holder a.nodes.size := by
  cases h with
  | cycle _ => exact .inl (List.prefix_refl _)
  | tooDeep _ _ => exact .inl (List.prefix_refl _)
  | missing _ _ _ _ _ _ _ => exact .inl (List.prefix_refl _)
  | lookupFails _ _ _ _ _ _ _ _ => exact .inl (List.prefix_refl _)
  | enterFails enter t a₁ e _ _ hs ho hn =>
      rw [← ho.same.2.1]
      exact .inl (hd enter hs hn).1
  | entered enter t a₁ child a₂ _ hs ho hn =>
      obtain ⟨happends, hroot⟩ := hd enter hs hn
      obtain ⟨rfl, hlt⟩ := hroot child rfl
      rw [ho.same.2.1] at happends hlt ⊢
      exact .inr ⟨rfl, a₂.nodes, happends, hlt, rfl⟩

/-- Following a link leaves the nodes in front of its holder as they are. -/
theorem FollowStep.front (hd : ∀ enter ∈ deeper, Appends enter) {holder : Nat} {s : Segment}
    {target : TraceId} {a a' : Assembly σ} {r : Except Failure Unit}
    (h : FollowStep l deeper holder s target a r a') {front : List Node}
    (hholder : front.length ≤ holder) (hfront : front <+: a.nodes.toList) :
    front <+: a'.nodes.toList := by
  rcases h.nodes hd with hnodes | ⟨-, nodes, hnodes, -, hattach⟩
  · exact hfront.trans hnodes
  · rw [hattach]
    exact prefix_attach _ (hfront.trans hnodes) hholder

/-- Following links leaves the nodes in front of all their holders as they are. -/
theorem followAll_front (hd : ∀ enter ∈ deeper, Appends enter) {front : List Node} :
    ∀ {links : List (Nat × Segment × TraceId)} {a a' : Assembly σ} {r : Except Failure Unit},
      followAll l deeper links a = (r, a') → (∀ link ∈ links, front.length ≤ link.1) →
      front <+: a.nodes.toList → front <+: a'.nodes.toList := by
  intro links
  induction links with
  | nil =>
      intro a a' r h _ hfront
      cases h
      exact hfront
  | cons link rest ih =>
      intro a a' r h hholders hfront
      obtain ⟨holder, s, target⟩ := link
      obtain ⟨hholder, hrest⟩ := List.forall_mem_cons.mp hholders
      cases r with
      | ok u =>
          obtain ⟨a₁, hs, hall⟩ := followAll_cons_ok h
          exact ih hall hrest (hs.front hd hholder hfront)
      | error e =>
          rcases followAll_cons_error h with hs | ⟨a₁, hs, hall⟩
          · exact hs.front hd hholder hfront
          · exact ih hall hrest (hs.front hd hholder hfront)

end

/-- Entering a trace appends nodes, whether it fails or not. -/
theorem splice_appends : ∀ (levels : Nat) (designated : Option String),
    Appends fun t => splice l options levels t designated := by
  refine levels_induction fun levels ih => ?_
  intro designated t a a' r h
  have hd : ∀ enter ∈ deeper l options levels, Appends enter := by
    intro enter henter
    obtain ⟨n, hlevels, rfl⟩ := deeper_eq_some henter
    exact ih n hlevels none
  -- the links are held by the nodes that are placed now, so those from before are in front
  have hlinks : ∀ {layout : Layout} {a₁ : Assembly σ} {u : Except Failure Unit},
      followAll l (deeper l options levels) (linksOn options a.nodes.size layout)
        (a.placed t.id layout) = (u, a₁) → a.nodes.toList <+: a₁.nodes.toList := by
    intro layout a₁ u hall
    refine followAll_front hd hall (fun link hlink => (holder_lt_of_mem_linksOn hlink).1) ?_
    rw [placed, Array.toList_append]
    exact List.prefix_append _ _
  change splice l options levels t designated a = (r, a') at h
  rw [splice_eq] at h
  cases r with
  | error e =>
      constructor
      · rcases enter_error h with ⟨-, rfl⟩ | ⟨layout, a₁, -, hall, rfl⟩
        · exact List.prefix_refl _
        · exact (hlinks hall :)
      · intro root hroot
        cases hroot
  | ok root =>
      obtain ⟨layout, a₁, -, hall, rfl, rfl⟩ := enter_ok h
      refine ⟨(hlinks hall :), fun root hroot => ?_⟩
      cases hroot
      have hsize := ((respected_frame l).links hall).size_le
      rw [size_placed, Layout.length_placed] at hsize
      exact ⟨rfl, by simp only [left]; omega⟩

/-! ### Runs by index -/

/-- What entering a trace does to an assembly, however it ends. -/
structure Spliced (a : Assembly σ) (r : Except Failure Nat) (a' : Assembly σ) : Prop
    extends Grown a a' where
  nodes : a.nodes.toList <+: a'.nodes.toList
  /-- The root of the trace is the first new node. -/
  root : ∀ root, r = .ok root → root = a.nodes.size ∧ a.nodes.size < a'.nodes.size

/-- What following a link does to an assembly, however it ends. -/
structure Noted (holder : Nat) (a : Assembly σ) (r : Except Failure Unit) (a' : Assembly σ) : Prop
    extends Grown a a' where
  /-- The nodes there were stay as they are, or the holder gets the first new one as its last
  child. -/
  nodes : a.nodes.toList <+: a'.nodes.toList ∨
    r = .ok () ∧ a.nodes.size < a'.nodes.size ∧
      (Arena.attach a.nodes holder a.nodes.size).toList <+: a'.nodes.toList

/-- Whether entering a trace succeeds or fails, the nodes that were there before are the same, and
the root of the trace is the first new one. -/
theorem spliced {levels : Nat} {t : Trace} {designated : Option String} {a a' : Assembly σ}
    {r : Except Failure Nat} (h : splice l options levels t designated a = (r, a')) :
    Spliced a r a' :=
  have happends := splice_appends levels designated h
  ⟨(respected_grown l).splice levels h, happends.1, happends.2⟩

/-- Whether following a link succeeds or fails, the nodes that were there before are the same, but
for the child that its holder gets when a trace was entered. -/
theorem noted {levels holder : Nat} {s : Segment} {target : TraceId} {a a' : Assembly σ}
    {r : Except Failure Unit} (hholder : holder < a.nodes.size)
    (h : follow l (deeper l options levels) holder s target a = (r, a')) :
    Noted holder a r a' := by
  have hstep := follow_step h
  refine ⟨(respected_grown l).step hstep, ?_⟩
  have hd : ∀ enter ∈ deeper l options levels, Appends enter := by
    intro enter henter
    obtain ⟨n, -, rfl⟩ := deeper_eq_some henter
    exact splice_appends n none
  rcases hstep.nodes hd with hnodes | ⟨hr, nodes, hnodes, hlt, hattach⟩
  · exact .inl hnodes
  · refine .inr ⟨hr, ?_, ?_⟩
    · rwa [hattach, Arena.attach, Array.size_modify]
    · rw [hattach]
      exact attach_prefix _ hnodes hholder

/-- Entering a trace and following a link from a node that is there, at any depth: no index is out
of range, so that there is a result; and whatever the result is, the assembly from before is left as
it is but for what is added, and for one child that the node may get. -/
theorem framed (l : Lookup σ) (options : Options) (depth : Nat) :
    (∀ t designated a, ∃ r a',
      spliceAt l options depth t designated a = some (r, a') ∧
      splice l options (options.maxLinkDepth - depth) t designated a = (r, a') ∧
      Spliced a r a') ∧
    ∀ holder s target a, holder < a.nodes.size → ∃ r a',
      followAt l (deeperAt l options depth) holder s target a = some (r, a') ∧
      follow l (deeper l options (options.maxLinkDepth - depth)) holder s target a = (r, a') ∧
      Noted holder a r a' := by
  constructor
  · intro t designated a
    rw [spliceAt_eq]
    exact ⟨_, _, rfl, rfl, spliced rfl⟩
  · intro holder s target a hholder
    rw [deeperAt_eq, followAt_eq s target hholder]
    exact ⟨_, _, rfl, rfl, noted hholder rfl⟩

end Assembly

namespace Store.Sample

open Assembly

/-- The first trace is placed, and none of its links is followed yet. -/
def callerPlaced : Assembly Store :=
  ⟨after [[⟨"1-a"⟩]], #[⟨segmentA, [1]⟩, ⟨segmentB, []⟩], [], [⟨"1-a"⟩], false, []⟩

/-- The link to the second trace is followed, and its root put below the first node. -/
theorem follow_callee :
    follow ⟨backend, 10⟩ (deeper ⟨backend, 10⟩ options 1) 0 segmentA ⟨"1-b"⟩ callerPlaced
      = (.ok (), ⟨after [[⟨"1-a"⟩], [⟨"1-b"⟩]], tree.nodes, tree.childTraces, [⟨"1-a"⟩], true,
          [⟨"c", ⟨"1-y"⟩, .depthLimit⟩]⟩) := by
  have htarget := trace_after [[⟨"1-a"⟩]] ⟨"1-b"⟩
  rw [answerTo_callee] at htarget
  have hchild : childTrace? ⟨backend, 10⟩ ⟨"1-b"⟩ callerPlaced
      = (.ok (some callee), ⟨after [[⟨"1-a"⟩], [⟨"1-b"⟩]],
          #[⟨segmentA, [1]⟩, ⟨segmentB, []⟩], tree.childTraces, [⟨"1-a"⟩], false, []⟩) :=
    Obtains.eq (.found callee _ rfl htarget)
  rw [follow_eq, if_neg (by simp [callerPlaced])]
  simp only [deeper, hchild, enter_callee]
  rfl

/-- The first trace is entered by checked numbers; then the first link on it is followed alone. -/
theorem framed_caller :
    (∃ a', spliceAt ⟨backend, 10⟩ options 0 caller none (.start (after [[⟨"1-a"⟩]]))
        = some (.ok 0, a') ∧ a'.nodes = tree.nodes ∧
      Spliced (.start (after [[⟨"1-a"⟩]])) (.ok 0) a') ∧
    0 < Array.size callerPlaced.nodes ∧
    ∃ a', followAt ⟨backend, 10⟩ (deeperAt ⟨backend, 10⟩ options 0) 0 segmentA ⟨"1-b"⟩ callerPlaced
        = some (.ok (), a') ∧ a'.nodes = tree.nodes ∧ Noted 0 callerPlaced (.ok ()) a' := by
  have hholder : 0 < Array.size callerPlaced.nodes := by decide
  obtain ⟨hsplice, hfollow⟩ := framed ⟨backend, 10⟩ options 0
  obtain ⟨r, a', hat, hrun, hspliced⟩ := hsplice caller none (.start (after [[⟨"1-a"⟩]]))
  obtain ⟨rfl, rfl⟩ := Prod.mk.inj (hrun.symm.trans splice_caller)
  obtain ⟨r, a', hfollowed, hlink, hnoted⟩ := hfollow 0 segmentA ⟨"1-b"⟩ callerPlaced hholder
  obtain ⟨rfl, rfl⟩ := Prod.mk.inj (hlink.symm.trans follow_callee)
  exact ⟨⟨_, hat, rfl, hspliced⟩, hholder, _, hfollowed, rfl, hnoted⟩

end Store.Sample

end CausalTrace
