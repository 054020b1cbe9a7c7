import CausalTrace.Proofs.Assembly.Coupling
import CausalTrace.Proofs.Assembly.WellFormed

/-!
# Following links further down

The number of levels down to which links are followed matters only where a link is left because of
its level, and the tree says whether there is such a link.  Where there is none, a greater number
gives the same tree, by the same calls.

## Main statements

* `Assembly.splice_deeper` — traces are entered alike when more levels may be followed
* `Tree.build_deeper` — a tree that no link was cut from is the tree for every greater depth

## Design notes

That no link is cut from a tree is known at its end only.  It is carried back to every step by
`Assembly.respected_limit`: a link that is cut stays cut.
-/

namespace CausalTrace

namespace Assembly

variable {σ : Type} {l : Lookup σ} {options : Options}

/-- If no link has been cut in the end, none was cut before. -/
theorem respected_limit (l : Lookup σ) :
    Respected l fun a a' => a'.linkLimitExceeded = false → a.linkLimitExceeded = false where
  refl _ h := h
  trans h₁ h₂ h := h₁ (h₂ h)
  asked _ h := h
  obtained ho h := ho.same.2.2.2 ▸ h
  missing _ _ h := h
  tooDeep _ _ h := by cases h
  attached _ _ _ h := h
  entered h₁ h := h₁ h

/-- From a number of levels on, traces are entered alike as long as no link is cut. -/
def Deepens (l : Lookup σ) (options : Options) (levels : Nat) : Prop :=
  ∀ more, levels ≤ more → ∀ {t : Trace} {designated : Option String} {a a' : Assembly σ}
    {root : Nat}, splice l options levels t designated a = (.ok root, a') →
      a'.linkLimitExceeded = false → splice l options more t designated a = (.ok root, a')

/-- What becomes of a link that is not cut is the same when more levels may be followed. -/
theorem FollowStep.deeper {levels more holder : Nat} (hle : levels ≤ more)
    (hdeeper : ∀ n, levels = n + 1 → Deepens l options n) {s : Segment}
    {target : TraceId} {a a' : Assembly σ}
    (h : FollowStep l (deeper l options levels) holder s target a (.ok ()) a')
    (hlimit : a'.linkLimitExceeded = false) :
    FollowStep l (Assembly.deeper l options more) holder s target a (.ok ()) a' := by
  cases h with
  | tooDeep _ _ => cases hlimit
  | missing enter id st hc hd hnone ht =>
      obtain ⟨n, rfl, -⟩ := deeper_eq_some hd
      obtain ⟨m, rfl⟩ := Nat.exists_eq_add_of_lt hle
      exact .missing _ id st hc rfl hnone ht
  | entered enter t a₁ child a₂ hc hd ho hn =>
      obtain ⟨n, rfl, rfl⟩ := deeper_eq_some hd
      obtain ⟨m, rfl⟩ := Nat.exists_eq_add_of_lt hle
      exact .entered _ t a₁ child a₂ hc rfl ho
        (hdeeper n rfl (n + m) (Nat.le_add_right n m) hn hlimit)

/-- If none of several links is cut, they are followed in the same way when more levels may be. -/
theorem followAll_deeper {levels more : Nat} (hle : levels ≤ more)
    (hdeeper : ∀ n, levels = n + 1 → Deepens l options n) :
    ∀ {links : List (Nat × Segment × TraceId)} {a a' : Assembly σ},
      followAll l (deeper l options levels) links a = (.ok (), a') →
      a'.linkLimitExceeded = false →
      followAll l (deeper l options more) links a = (.ok (), a') := by
  intro links
  induction links with
  | nil => exact fun h _ => h
  | cons link rest ih =>
      intro a a' h hlimit
      obtain ⟨holder, s, target⟩ := link
      obtain ⟨a₁, hs, hr⟩ := followAll_cons_ok h
      have hlimit₁ : a₁.linkLimitExceeded = false := (respected_limit l).links hr hlimit
      rw [(hs.deeper hle hdeeper hlimit₁).followAll_ok]
      exact ih hr hlimit

/-- If no link is cut, a trace is entered in the same way when more levels may be followed. -/
theorem splice_deeper (l : Lookup σ) (options : Options) :
    ∀ levels : Nat, Deepens l options levels := by
  refine levels_induction fun levels ih => ?_
  intro more hle t designated a a' root h hlimit
  rw [splice_eq] at h ⊢
  obtain ⟨layout, a₁, hlayout, hall, rfl, rfl⟩ := enter_ok h
  have hall' := followAll_deeper hle ih hall hlimit
  rw [enter_of_links hlayout hall']
  rfl

end Assembly

/-! ### Trees -/

namespace Tree

variable {σ : Type} {l : Lookup σ} {header : Header} {options : Options} {depth : Nat}

/-- A tree from which no link was cut is built for every greater depth. -/
theorem build_maxLinkDepth (hdepth : options.maxLinkDepth ≤ depth) {s s' : σ} {t : Tree}
    (h : build l header options s = (.ok t, s')) (hlimit : t.linkLimitExceeded = false) :
    build l header { options with maxLinkDepth := depth } s = (.ok t, s') := by
  obtain ⟨hassemble, hleaf⟩ := Assembly.build_eq_ok.mp h
  obtain ⟨source, s₁, root, a, hsource, hsplice, rfl, rfl⟩ := Assembly.assemble_eq_ok.mp hassemble
  refine Assembly.build_eq_ok.mpr ⟨Assembly.assemble_eq_ok.mpr ?_, hleaf⟩
  refine ⟨source, s₁, root, a, hsource, ?_, rfl, rfl⟩
  -- the depth among the options is not looked at below the source trace
  have hsame : Assembly.splice l { options with maxLinkDepth := depth } depth
      = Assembly.splice l options depth := Assembly.splice_congr (by rfl) (by rfl) depth
  rw [hsame]
  exact Assembly.splice_deeper l options _ depth hdepth hsplice hlimit

/-- A tree from which no link was cut because of its level is the tree for every greater depth, and
is had by the same calls. -/
theorem build_deeper (hdepth : options.maxLinkDepth ≤ depth) {s s' : σ} {t : Tree}
    (h : build l header options s = (.ok t, s')) (hlimit : t.linkLimitExceeded = false) :
    build l header { options with maxLinkDepth := depth } s = (.ok t, s') ∧
      requests l header { options with maxLinkDepth := depth } s
        = requests l header options s := by
  refine ⟨build_maxLinkDepth hdepth h hlimit, ?_⟩
  obtain ⟨htree, hstate⟩ := build_recorded l header options s []
  rw [h] at htree hstate
  have hrecorded : build l.recorded header options (s, [])
      = (.ok t, (s', requests l header options s)) :=
    Prod.ext htree (Prod.ext hstate rfl)
  unfold requests at hrecorded ⊢
  rw [build_maxLinkDepth hdepth hrecorded hlimit]

end Tree

/-! ### A run that cuts no link -/

namespace Store.Sample

open Assembly

/-- The tree of the second trace. -/
def calleeTree : Tree where
  nodes := #[⟨segmentC, []⟩]
  root := 0
  paths := [[0]]
  sourceTrace := callee
  childTraces := []
  linkLimitExceeded := false
  unresolved := [⟨"c", ⟨"1-y"⟩, .notFound⟩]

/-- The second trace links to a missing one. -/
theorem build_callee : Tree.build ⟨backend, 10⟩ (Header.ofRoot ⟨"1-b"⟩) options store
    = (.ok calleeTree, after [[⟨"1-b"⟩], [⟨"1-y"⟩]]) := by
  have hsource := trace_after [] ⟨"1-b"⟩
  rw [answerTo_callee] at hsource
  have hmissing := trace_after [[⟨"1-b"⟩]] ⟨"1-y"⟩
  have hl : Layout.ofTrace callee none options.orphans = .ok layoutC := by cbv
  have hlinks : linksOn options 0 layoutC = [(0, segmentC, ⟨"1-y"⟩)] := by cbv
  have hnodes : layoutC.nodes 0 = [⟨segmentC, []⟩] := by cbv
  have hall : followAll ⟨backend, 10⟩ (deeper ⟨backend, 10⟩ options 1) (linksOn options 0 layoutC)
      ((start (after [[⟨"1-b"⟩]])).placed ⟨"1-b"⟩ layoutC)
      = (.ok (), ⟨after [[⟨"1-b"⟩], [⟨"1-y"⟩]], #[⟨segmentC, []⟩], [], [⟨"1-b"⟩], false,
          [⟨"c", ⟨"1-y"⟩, .notFound⟩]⟩) := by
    rw [hlinks, placed, show (start (after [[⟨"1-b"⟩]])).nodes.size = 0 from rfl, hnodes]
    exact FollowStep.followAll_ok (.missing _ _ _ (by simp [start]) rfl rfl hmissing) []
  have hsplice : splice ⟨backend, 10⟩ options 1 callee none (.start (after [[⟨"1-b"⟩]]))
      = (.ok 0, ⟨after [[⟨"1-b"⟩], [⟨"1-y"⟩]], #[⟨segmentC, []⟩], [], [], false,
          [⟨"c", ⟨"1-y"⟩, .notFound⟩]⟩) := by
    rw [splice_eq, enter_of_links hl hall]
    rfl
  exact build_eq_ok.mpr
    ⟨assemble_eq_ok.mpr ⟨callee, _, 0, _, hsource, hsplice, rfl, rfl⟩, .inl rfl⟩

end Store.Sample

open Store.Sample in
/-- A tree whose only link leads to a missing trace, for one level and for five. -/
theorem Tree.build_deeper_sample :
    options.maxLinkDepth ≤ 5 ∧
      Tree.build ⟨Store.backend, 10⟩ (Header.ofRoot ⟨"1-b"⟩) options store
        = (.ok calleeTree, after [[⟨"1-b"⟩], [⟨"1-y"⟩]]) ∧
      calleeTree.linkLimitExceeded = false ∧
      Tree.build ⟨Store.backend, 10⟩ (Header.ofRoot ⟨"1-b"⟩) { options with maxLinkDepth := 5 }
          store
        = (.ok calleeTree, after [[⟨"1-b"⟩], [⟨"1-y"⟩]]) ∧
      Tree.requests ⟨Store.backend, 10⟩ (Header.ofRoot ⟨"1-b"⟩) { options with maxLinkDepth := 5 }
          store
        = Tree.requests ⟨Store.backend, 10⟩ (Header.ofRoot ⟨"1-b"⟩) options store :=
  ⟨by decide, build_callee, rfl, Tree.build_deeper (by decide) build_callee rfl⟩

end CausalTrace
