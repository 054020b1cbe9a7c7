import CausalTrace.Proofs.Assembly.Coupling
import CausalTrace.Proofs.Assembly.WellFormed

/-!
# Which traces are looked up

The look-ups made for a tree, in order and with their answers.  A trace that has been found is never
looked up again; one that has not been found is, once for every link that leads to it.

## Main definitions

* `Ask`, `Lookup.Asks` — look-ups made one after the other
* `Assembly.Asking` — what is looked up between two assemblies
* `Tree.LookedUp` — what is looked up for a tree

## Main statements

* `Assembly.exists_asking` — entering a trace
* `Tree.lookedUp_of_build` — the look-ups for a tree, and the calls that a store counts
* `Tree.lookups_repeated` — a trace that is not found is looked up twice

## Design notes

`childTraces` holds what was found.  What was not found leaves no mark there, so that a later link
to it is a new question; and if the backend has the trace by then, the tree holds it and lists it as
not found at once.
-/

namespace CausalTrace

/-- A look-up and its answer. -/
structure Ask where
  id : TraceId
  answer : Except Failure Trace

/-- The id of a look-up that did not find its trace. -/
def Ask.missed? (q : Ask) : Option TraceId :=
  match q.answer with
  | .error (.traceNotFound _) => some q.id
  | _ => none

/-- A look-up found its trace, or did not find it; it did not fail for another reason. -/
def Ask.IsAnswered (q : Ask) : Prop := q.missed? = some q.id ∨ ∃ t, q.answer = .ok t

theorem Ask.missed?_eq_some {q : Ask} {id : TraceId} :
    q.missed? = some id ↔ q.id = id ∧ ∃ i, q.answer = .error (.traceNotFound i) := by
  obtain ⟨j, answer⟩ := q
  cases answer with
  | ok t => simp [missed?]
  | error e => cases e <;> simp [missed?]

/-! ### Look-ups one after the other -/

/-- Look-ups made one after the other, from one state of the backend to another. -/
inductive Lookup.Asks {σ : Type} (l : Lookup σ) : σ → List Ask → σ → Prop
  | nil (s : σ) : Asks l s [] s
  | cons {s s₁ s' : σ} {id : TraceId} {r : Except Failure Trace} {rest : List Ask} :
      l.trace id s = (r, s₁) → Asks l s₁ rest s' → Asks l s (⟨id, r⟩ :: rest) s'

section

variable {σ : Type} {l : Lookup σ}

theorem Lookup.Asks.single {s s' : σ} {id : TraceId} {r : Except Failure Trace}
    (h : l.trace id s = (r, s')) : l.Asks s [⟨id, r⟩] s' := .cons h (.nil s')

/-- Look-ups go on in the state that those before them leave. -/
theorem Lookup.Asks.append {s s₁ s' : σ} {asked rest : List Ask} (h : l.Asks s asked s₁)
    (h' : l.Asks s₁ rest s') : l.Asks s (asked ++ rest) s' := by
  induction h with
  | nil _ => exact h'
  | cons ht _ ih => exact .cons ht (ih h')

/-- Look-ups in a frozen store are calls for one trace each, and are answered from what it holds. -/
theorem Store.Frozen.asks {n : Nat} {s s' : Store} {asked : List Ask} (hs : s.Frozen)
    (h : Lookup.Asks ⟨Store.backend, n + 1⟩ s asked s') :
    s'.requests = s.requests ++ asked.map (fun q => [q.id]) ∧
      ∀ q ∈ asked, q.answer = s.answerTo q.id := by
  induction h with
  | nil s => simp
  | @cons s s₁ s' id r rest ht _ ih =>
      obtain ⟨hr, hs₁⟩ := Prod.mk.inj ((trace_frozen hs n id).symm.trans ht)
      have hserves : s.Serves s₁ := ⟨_, hs₁.symm⟩
      obtain ⟨hrequests, hanswers⟩ := ih (hserves.frozen hs)
      refine ⟨?_, fun q hq => ?_⟩
      · rw [hrequests, ← hs₁]
        simp
      · rcases List.mem_cons.mp hq with rfl | hq
        · exact hr.symm
        · rw [hanswers q hq, hserves.answerTo]

end

/-- Look-ups of which only those that were answered, and not found, are made again: their traces are
distinct if those that were not found are, and none of them was found at another time. -/
theorem nodup_map_id {asked : List Ask}
    (honce : asked.Pairwise fun p q => q.id = p.id → p.missed? = some p.id)
    (hanswered : ∀ q ∈ asked, q.IsAnswered) :
    (asked.map Ask.id).Nodup ↔ (asked.filterMap Ask.missed?).Nodup ∧
      ∀ id ∈ asked.filterMap Ask.missed?, ∀ t, ⟨id, .ok t⟩ ∉ asked := by
  constructor
  · intro h
    refine ⟨List.pairwise_filterMap.mpr ((List.pairwise_map.mp h).imp ?_), fun id hid t ht => ?_⟩
    · intro p q hne id hid id' hid'
      rw [← (Ask.missed?_eq_some.mp hid).1, ← (Ask.missed?_eq_some.mp hid').1]
      exact hne
    · obtain ⟨q, hq, hmissed⟩ := List.mem_filterMap.mp hid
      obtain ⟨hqid, i, hi⟩ := Ask.missed?_eq_some.mp hmissed
      rw [List.inj_on_of_nodup_map h hq ht hqid] at hi
      cases hi
  · rintro ⟨hmisses, hfound⟩
    refine List.pairwise_map.mpr
      ((honce.and (List.pairwise_filterMap.mp hmisses)).imp_of_mem ?_)
    rintro p q hp hq ⟨hagain, hdistinct⟩ hid
    -- the first of two look-ups of one trace found nothing; the second would be another miss of it
    have hmissed := hagain hid.symm
    rcases hanswered q hq with hmissed' | ⟨t, ht⟩
    · exact hdistinct p.id hmissed q.id hmissed' hid
    · exact hfound p.id (List.mem_filterMap.mpr ⟨p, hp, hmissed⟩) t (hid ▸ ht ▸ hq)

namespace Assembly

variable {σ : Type} {l : Lookup σ} {options : Options}

/-! ### What is looked up on the way -/

/-- The targets of links that were left because they were not found. -/
def missing (unresolved : List UnresolvedLink) : List TraceId :=
  (unresolved.filter fun u => u.reason == .notFound).map UnresolvedLink.trace

/-- What is looked up on the way from one assembly to another.  If the way does not end with a
failure, every look-up is answered. -/
structure Asking (l : Lookup σ) (fine : Bool) (asked : List Ask) (a a' : Assembly σ) : Prop where
  chain : a'.chain = a.chain
  asks : l.Asks a.backend asked a'.backend
  answered : fine = true → ∀ q ∈ asked, q.IsAnswered
  /-- Traces that are being entered are not looked up. -/
  outside : ∀ q ∈ asked, q.id ∉ a.chain
  /-- Traces that are remembered are not looked up. -/
  unknown : ∀ q ∈ asked, a.childTraces.get? q.id = none
  found : ∀ id t, a'.childTraces.get? id = some t ↔
    a.childTraces.get? id = some t ∨ ⟨id, .ok t⟩ ∈ asked
  missed : missing a'.unresolved = missing a.unresolved ++ asked.filterMap Ask.missed?
  once : asked.Pairwise fun p q => q.id = p.id → p.missed? = some p.id

namespace Asking

theorem refl (fine : Bool) (a : Assembly σ) : Asking l fine [] a a where
  chain := rfl
  asks := .nil _
  answered _ q hq := by cases hq
  outside q hq := by cases hq
  unknown q hq := by cases hq
  found id t := by simp
  missed := by simp
  once := .nil

/-- One way after another that ended well. -/
theorem trans {fine : Bool} {asked rest : List Ask} {a b c : Assembly σ}
    (h : Asking l true asked a b) (h' : Asking l fine rest b c) :
    Asking l fine (asked ++ rest) a c where
  chain := h'.chain.trans h.chain
  asks := h.asks.append h'.asks
  answered hfine q hq :=
    (List.mem_append.mp hq).elim (h.answered rfl q) (h'.answered hfine q)
  outside q hq := (List.mem_append.mp hq).elim (h.outside q)
    fun hq => h.chain ▸ h'.outside q hq
  unknown q hq := by
    rcases List.mem_append.mp hq with hq | hq
    · exact h.unknown q hq
    · refine Option.eq_none_iff_forall_ne_some.mpr fun t ht => ?_
      have hlater := h'.unknown q hq
      rw [(h.found _ _).mpr (.inl ht)] at hlater
      cases hlater
  found id t := by rw [h'.found, h.found, List.mem_append, or_assoc]
  missed := by rw [h'.missed, h.missed, List.filterMap_append, List.append_assoc]
  once := by
    refine List.pairwise_append.mpr ⟨h.once, h'.once, fun p hp q hq hid => ?_⟩
    rcases h.answered rfl p hp with hmissed | ⟨t, ht⟩
    · exact hmissed
    · -- what has been found is remembered, and not looked up later
      have hremembered := (h.found p.id t).mpr (.inr (ht ▸ hp))
      have hunknown := h'.unknown q hq
      rw [hid, hremembered] at hunknown
      cases hunknown

/-- A trace that is had is remembered, or it is looked up. -/
theorem of_obtains {target : TraceId} {t : Trace} {a a' : Assembly σ} (hc : target ∉ a.chain)
    (ho : Obtains l target a t a') : ∃ asked, Asking l true asked a a' := by
  cases ho with
  | known _ => exact ⟨[], refl true a⟩
  | found s hnone ht =>
      refine ⟨[⟨target, .ok t⟩], rfl, .single ht, ?_, ?_, ?_, fun id u => ?_, ?_, ?_⟩
      · exact fun _ q hq => .inr ⟨t, by rw [List.mem_singleton.mp hq]⟩
      · exact fun q hq => List.mem_singleton.mp hq ▸ hc
      · exact fun q hq => List.mem_singleton.mp hq ▸ hnone
      · rw [Table.get?_insert, List.mem_singleton, Ask.mk.injEq]
        by_cases hid : target = id
        · subst hid
          simp [hnone, eq_comm]
        · simp [hid, Ne.symm hid]
      · exact (List.append_nil _).symm
      · exact List.pairwise_singleton _ _

/-- A look-up that does not give a trace. -/
theorem of_error {fine : Bool} {target : TraceId} {e : Failure} {a a' : Assembly σ}
    (hc : target ∉ a.chain) (hnone : a.childTraces.get? target = none)
    (ht : l.trace target a.backend = (.error e, a'.backend))
    (hanswered : fine = true → ∃ i, e = .traceNotFound i) (hchain : a'.chain = a.chain)
    (hchildTraces : a'.childTraces = a.childTraces)
    (hmissed : missing a'.unresolved
      = missing a.unresolved ++ [⟨target, .error e⟩].filterMap Ask.missed?) :
    Asking l fine [⟨target, .error e⟩] a a' where
  chain := hchain
  asks := .single ht
  answered hfine q hq := by
    obtain ⟨i, rfl⟩ := hanswered hfine
    rw [List.mem_singleton.mp hq]
    exact .inl rfl
  outside q hq := List.mem_singleton.mp hq ▸ hc
  unknown q hq := List.mem_singleton.mp hq ▸ hnone
  found id t := by simp [hchildTraces]
  missed := hmissed
  once := List.pairwise_singleton _ _

end Asking

theorem missing_append (unresolved : List UnresolvedLink) (u : UnresolvedLink) :
    missing (unresolved ++ [u])
      = missing unresolved ++ if u.reason = .notFound then [u.trace] else [] := by
  obtain ⟨segment, target, reason⟩ := u
  cases reason <;> simp [missing]

/-! ### Following links and entering traces -/

/-- What is looked up when a link is followed. -/
theorem exists_asking_follow {deeper : Option (Trace → Action (Assembly σ) Nat)}
    (hd : ∀ enter, deeper = some enter → ∀ t a r a', enter t a = (r, a') →
      ∃ asked, Asking l r.isOk asked a a')
    {holder : Nat} {s : Segment} {target : TraceId} {a a' : Assembly σ} {r : Except Failure Unit}
    (h : FollowStep l deeper holder s target a r a') : ∃ asked, Asking l r.isOk asked a a' := by
  cases h with
  | cycle _ => exact ⟨[], .refl _ _⟩
  | tooDeep _ _ =>
      have hmissed := missing_append a.unresolved ⟨s.id, target, .depthLimit⟩
      exact ⟨[], { Asking.refl true a with missed := hmissed }⟩
  | missing enter id st hc _ hnone ht =>
      refine ⟨_, .of_error hc hnone ht (fun _ => ⟨id, rfl⟩) rfl rfl ?_⟩
      rw [missing_append]
      rfl
  | lookupFails enter e st hc _ hnone ht he =>
      refine ⟨_, .of_error hc hnone ht (fun h => by cases h) rfl rfl ?_⟩
      have hmissed : Ask.missed? ⟨target, .error e⟩ = none := by
        refine Option.eq_none_iff_forall_ne_some.mpr fun id hid => ?_
        obtain ⟨-, i, hi⟩ := Ask.missed?_eq_some.mp hid
        cases hi
        exact he i rfl
      rw [List.filterMap_cons_none hmissed]
      exact (List.append_nil _).symm
  | enterFails enter t a₁ e _ hc hs ho hn =>
      obtain ⟨asked, hobtains⟩ := Asking.of_obtains hc ho
      obtain ⟨rest, henter⟩ := hd enter hs t _ _ _ hn
      exact ⟨_, hobtains.trans henter⟩
  | entered enter t a₁ child a₂ hc hs ho hn =>
      obtain ⟨asked, hobtains⟩ := Asking.of_obtains hc ho
      obtain ⟨rest, henter⟩ := hd enter hs t _ _ _ hn
      exact ⟨_, { hobtains.trans henter with }⟩

/-- What is looked up when links are followed one after the other. -/
theorem exists_asking_followAll {deeper : Option (Trace → Action (Assembly σ) Nat)}
    (hd : ∀ enter, deeper = some enter → ∀ t a r a', enter t a = (r, a') →
      ∃ asked, Asking l r.isOk asked a a') :
    ∀ {links : List (Nat × Segment × TraceId)} {a a' : Assembly σ} {r : Except Failure Unit},
      followAll l deeper links a = (r, a') → ∃ asked, Asking l r.isOk asked a a' := by
  intro links
  induction links with
  | nil =>
      intro a a' r h
      cases h
      exact ⟨[], .refl _ _⟩
  | cons link rest ih =>
      intro a a' r h
      obtain ⟨holder, s, target⟩ := link
      cases r with
      | ok u =>
          obtain ⟨a₁, hs, hr⟩ := followAll_cons_ok h
          obtain ⟨asked, hfirst⟩ := exists_asking_follow hd hs
          obtain ⟨others, hothers⟩ := ih hr
          exact ⟨_, hfirst.trans hothers⟩
      | error e =>
          rcases followAll_cons_error h with hs | ⟨a₁, hs, hr⟩
          · exact exists_asking_follow hd hs
          · obtain ⟨asked, hfirst⟩ := exists_asking_follow hd hs
            obtain ⟨others, hothers⟩ := ih hr
            exact ⟨_, hfirst.trans hothers⟩

/-- What is looked up while a trace is being entered, which is not the trace itself. -/
theorem Asking.entered {fine : Bool} {asked : List Ask} {a a' : Assembly σ} {id : TraceId}
    {layout : Layout} (h : Asking l fine asked (a.placed id layout) a') :
    Asking l fine asked a a'.left ∧ ∀ q ∈ asked, q.id ≠ id := by
  have hchain : a'.left.chain = a.chain := by
    rw [left, h.chain, placed, List.dropLast_concat]
  refine ⟨⟨hchain, h.asks, h.answered, fun q hq hmem => ?_, h.unknown, h.found, h.missed, h.once⟩,
    fun q hq hid => ?_⟩
  · exact h.outside q hq (List.mem_append_left _ hmem)
  · exact h.outside q hq (hid ▸ List.mem_append_right _ List.mem_cons_self)

/-- What is looked up when a trace is entered. -/
theorem exists_asking : ∀ (levels : Nat) {t : Trace} {designated : Option String}
    {a a' : Assembly σ} {r : Except Failure Nat},
      splice l options levels t designated a = (r, a') →
      ∃ asked, Asking l r.isOk asked a a' ∧ ∀ q ∈ asked, q.id ≠ t.id := by
  refine levels_induction fun levels ih => ?_
  intro t designated a a' r h
  rw [splice_eq] at h
  have hd : ∀ enter, deeper l options levels = some enter → ∀ t a r a', enter t a = (r, a') →
      ∃ asked, Asking l r.isOk asked a a' := by
    intro enter he t a r a' hn
    obtain ⟨n, hlevels, rfl⟩ := deeper_eq_some he
    obtain ⟨asked, hasked, -⟩ := ih n hlevels hn
    exact ⟨asked, hasked⟩
  cases r with
  | ok root =>
      obtain ⟨layout, a₁, -, hall, -, rfl⟩ := enter_ok h
      obtain ⟨asked, hasked⟩ := exists_asking_followAll hd hall
      exact ⟨asked, hasked.entered⟩
  | error e =>
      rcases enter_error h with ⟨-, rfl⟩ | ⟨layout, a₁, -, hall, rfl⟩
      · exact ⟨[], .refl _ _, fun q hq => by cases hq⟩
      · obtain ⟨asked, hasked⟩ := exists_asking_followAll hd hall
        exact ⟨asked, hasked.entered⟩

end Assembly

/-! ### Trees -/

namespace Tree

/-- The targets of links that were left because they were not found. -/
def missing (t : Tree) : List TraceId := Assembly.missing t.unresolved

/-- The look-ups that are made for a tree, given what becomes of it. -/
structure LookedUp (header : Header) (asked : List Ask) (outcome : Except Failure Tree) :
    Prop where
  /-- The source trace is looked up first, and not again. -/
  source : ∃ answer rest, asked = ⟨header.root, answer⟩ :: rest ∧ ∀ q ∈ rest, q.id ≠ header.root
  /-- What is looked up again has not been found before. -/
  once : asked.Pairwise fun p q => q.id = p.id → p.missed? = some p.id
  answered : ∀ {t}, outcome = .ok t → ∀ q ∈ asked, q.IsAnswered
  /-- The traces found are those of the tree. -/
  found : ∀ {t}, outcome = .ok t → ∀ id u, ⟨id, .ok u⟩ ∈ asked ↔
    (id = header.root ∧ u = t.sourceTrace) ∨ t.childTraces.get? id = some u
  /-- The look-ups that found nothing are those of the links listed as not found. -/
  missed : ∀ {t}, outcome = .ok t → asked.filterMap Ask.missed? = t.missing

section

variable {σ : Type} {l : Lookup σ} {options : Options} {header : Header}

/-- For a tree, no trace is looked up twice if the links listed as not found lead to distinct traces
and none of these is in the tree. -/
theorem LookedUp.distinct {asked : List Ask} {t : Tree} (h : LookedUp header asked (.ok t)) :
    (asked.map Ask.id).Nodup ↔
      t.missing.Nodup ∧ ∀ id ∈ t.missing, t.childTraces.get? id = none := by
  rw [nodup_map_id h.once (h.answered rfl), h.missed rfl]
  refine and_congr_right fun _ => forall₂_congr fun id hid => ⟨fun hnot => ?_, fun hnone u hu => ?_⟩
  · exact Option.eq_none_iff_forall_ne_some.mpr fun u hu =>
      hnot u ((h.found rfl id u).mpr (.inr hu))
  · rcases (h.found rfl id u).mp hu with ⟨rfl, -⟩ | hsome
    · -- the source trace is looked up once, so that it is not both found and not found
      obtain ⟨answer, rest, rfl, hrest⟩ := h.source
      rw [← h.missed rfl] at hid
      obtain ⟨q, hq, hmissed⟩ := List.mem_filterMap.mp hid
      obtain ⟨hroot, i, hi⟩ := Ask.missed?_eq_some.mp hmissed
      have hhead : ∀ p ∈ (⟨header.root, answer⟩ :: rest : List Ask), p.id = header.root →
          p.answer = answer := by
        intro p hp hproot
        rcases List.mem_cons.mp hp with rfl | hp
        · rfl
        · exact absurd hproot (hrest p hp)
      cases (hi.symm.trans (hhead q hq hroot)).trans (hhead _ hu rfl).symm
    · cases hnone.symm.trans hsome

/-- When no tree is built, the source trace is looked up first and once, and what is found is not
looked up again. -/
theorem lookedUp_error {asked : List Ask} {e : Failure}
    (hsource : ∃ answer rest, asked = ⟨header.root, answer⟩ :: rest ∧
      ∀ q ∈ rest, q.id ≠ header.root)
    (honce : asked.Pairwise fun p q => q.id = p.id → p.missed? = some p.id) :
    LookedUp header asked (.error e) where
  source := hsource
  once := honce
  answered h := by cases h
  found h := by cases h
  missed h := by cases h

/-- A tree is put together from look-ups. -/
theorem exists_lookedUp_assemble (l : Lookup σ) (header : Header) (options : Options) (s : σ) :
    ∃ asked, l.Asks s asked (assemble l header options s).2 ∧
      LookedUp header asked (assemble l header options s).1 := by
  unfold assemble
  rcases hsource : l.trace header.root s with ⟨e | source, s₁⟩
  · exact ⟨_, .single hsource, lookedUp_error ⟨_, _, rfl, fun q hq => by cases hq⟩
      (List.pairwise_singleton _ _)⟩
  · simp only
    rcases hsplice : Assembly.splice l options options.maxLinkDepth source header.parent
      (.start s₁) with ⟨r, a⟩
    obtain ⟨asked, hasked, hothers⟩ := Assembly.exists_asking _ hsplice
    rw [(Lookup.trace_ok hsource).1] at hothers
    have honce : (⟨header.root, .ok source⟩ :: asked).Pairwise
        fun p q => q.id = p.id → p.missed? = some p.id :=
      List.pairwise_cons.mpr ⟨fun q hq hid => absurd hid (hothers q hq), hasked.once⟩
    refine ⟨⟨header.root, .ok source⟩ :: asked, ?_⟩
    cases r with
    | error e => exact ⟨.cons hsource hasked.asks, lookedUp_error ⟨_, _, rfl, hothers⟩ honce⟩
    | ok root =>
        refine ⟨.cons hsource hasked.asks, ⟨_, _, rfl, hothers⟩, honce, ?_, ?_, ?_⟩
        · rintro t ⟨⟩
          exact List.forall_mem_cons.mpr ⟨.inr ⟨source, rfl⟩, hasked.answered rfl⟩
        · rintro t ⟨⟩ id u
          rw [List.mem_cons, Ask.mk.injEq, Except.ok.injEq, hasked.found]
          simp [Assembly.start, Table.get?_nil]
        · rintro t ⟨⟩
          rw [List.filterMap_cons_none rfl]
          exact hasked.missed.symm

/-- Looking at its leaves takes no look-up. -/
theorem exists_lookedUp (l : Lookup σ) (header : Header) (options : Options) (s : σ) :
    ∃ asked, l.Asks s asked (build l header options s).2 ∧
      LookedUp header asked (build l header options s).1 := by
  obtain ⟨asked, hasks, hlooked⟩ := exists_lookedUp_assemble l header options s
  unfold build
  rw [Action.bind_apply]
  generalize assemble l header options s = result at hasks hlooked ⊢
  obtain ⟨e | t, s'⟩ := result
  · exact ⟨asked, hasks, hlooked⟩
  · refine ⟨asked, hasks, ?_⟩
    simp only [Action.ofExcept]
    cases hchecked : t.checked options with
    | error e => exact lookedUp_error hlooked.source hlooked.once
    | ok u =>
        obtain ⟨rfl, -⟩ := Assembly.checked_eq_ok.mp hchecked
        exact hlooked

/-- The look-ups for a tree: no trace is looked up again that has been found, but one that has not
been found is looked up for every link to it.  In a frozen store, which finds a trace always or
never, every look-up is one call. -/
theorem lookedUp_of_build (header : Header) (options : Options) :
    (∀ {σ : Type} (l : Lookup σ) (s : σ), ∃ asked,
      l.recorded.Asks (s, []) asked
          ((build l header options s).2, requests l header options s) ∧
        LookedUp header asked (build l header options s).1 ∧
        ∀ t, (build l header options s).1 = .ok t → ((asked.map Ask.id).Nodup ↔
          t.missing.Nodup ∧ ∀ id ∈ t.missing, t.childTraces.get? id = none)) ∧
    ∀ (n : Nat) {s : Store}, s.Frozen → ∃ asked,
      LookedUp header asked (build ⟨Store.backend, n + 1⟩ header options s).1 ∧
        (build ⟨Store.backend, n + 1⟩ header options s).2.requests
          = s.requests ++ asked.map (fun q => [q.id]) ∧
        ∀ t, (build ⟨Store.backend, n + 1⟩ header options s).1 = .ok t →
          ((asked.map Ask.id).Nodup ↔ t.missing.Nodup) ∧
            ∀ id ∈ t.missing, t.childTraces.get? id = none := by
  constructor
  · intro σ l s
    obtain ⟨asked, hasks, hlooked⟩ := exists_lookedUp l.recorded header options (s, [])
    obtain ⟨houtcome, hstate⟩ := build_recorded l header options s []
    have hend : (build l.recorded header options (s, [])).2
        = ((build l header options s).2, requests l header options s) := Prod.ext hstate rfl
    rw [houtcome] at hlooked
    rw [hend] at hasks
    refine ⟨asked, hasks, hlooked, fun t ht => ?_⟩
    rw [ht] at hlooked
    exact hlooked.distinct
  · intro n s hs
    obtain ⟨asked, hasks, hlooked⟩ := exists_lookedUp ⟨Store.backend, n + 1⟩ header options s
    obtain ⟨hrequests, hanswers⟩ := hs.asks hasks
    refine ⟨asked, hlooked, hrequests, fun t ht => ?_⟩
    rw [ht] at hlooked
    -- the answer is the same whenever a trace is looked up
    have hnone : ∀ id ∈ t.missing, t.childTraces.get? id = none := by
      intro id hid
      refine Option.eq_none_iff_forall_ne_some.mpr fun u hu => ?_
      rw [← hlooked.missed rfl] at hid
      obtain ⟨q, hq, hmissed⟩ := List.mem_filterMap.mp hid
      obtain ⟨rfl, i, hi⟩ := Ask.missed?_eq_some.mp hmissed
      have hfound := hanswers _ ((hlooked.found rfl q.id u).mpr (.inr hu))
      cases hfound.trans ((hanswers q hq).symm.trans hi)
    exact ⟨hlooked.distinct.trans (and_iff_left hnone), hnone⟩

end

end Tree

/-! ### Two runs with two links to one trace -/

namespace Store.Sample

open Assembly

def documentE : Document := ⟨"a", "\x7b\"id\":\"a\",\"links\":[[\"1-x\",null,
  \x7b\"aws.xray.reserved.reference_type\":\"child\"\x7d]]\x7d"⟩

/-- A store in which two segments of one trace link to a missing one. -/
def shared : Store := ofRecords [⟨"1-e", none, none, [documentE, documentB]⟩]

/-- A store in which two segments of one trace link to another, which is put off once. -/
def late : Store :=
  (ofRecords [⟨"1-e", none, none, [documentE, documentB]⟩,
    ⟨"1-x", none, none, [documentC]⟩]).defer ⟨"1-x"⟩ 1

def segmentE : Segment := segment "1-e" "a" none "1-x"

def segmentF : Segment := segment "1-e" "b" (some "a") "1-x"

def segmentX : Segment := segment "1-x" "c" none "1-y"

/-- The trace with the two links. -/
def sharer : Trace := ⟨⟨"1-e"⟩, none, false, [segmentE, segmentF]⟩

/-- The trace that is put off. -/
def latecomer : Trace := ⟨⟨"1-x"⟩, none, false, [segmentX]⟩

def layoutE : Layout := ⟨segmentE, [("a", segmentF)]⟩

def layoutX : Layout := ⟨segmentX, []⟩

theorem sheet_documentE :
    Json.Sheet.ofText documentE.text = ⟨draft "a" [] "1-x", false⟩ := by
  unfold documentE draft linkDraft Json.Sheet.ofText
  simp only [String.reduceToList]
  cbv

theorem segments_sharer : [documentE, documentB].map (fun d => d.segment ⟨"1-e"⟩)
    = sharer.segments.map .ok := by
  have he := Document.segment_eq (w := content "a" none "1-x") sheet_documentE rfl ⟨"1-e"⟩
  have hb := Document.segment_eq (w := content "b" (some "a") "1-x") sheet_documentB rfl ⟨"1-e"⟩
  simp only [List.map_cons, List.map_nil, he, hb]
  rfl

theorem answerTo_sharer (s : Store)
    (h : s.record? ⟨"1-e"⟩ = some ⟨"1-e", none, some false, [documentE, documentB]⟩) :
    s.answerTo ⟨"1-e"⟩ = .ok sharer :=
  answerTo_of_segments h segments_sharer (List.cons_ne_nil _ _)

theorem answerTo_latecomer (s : Store)
    (h : s.record? ⟨"1-x"⟩ = some ⟨"1-x", none, some false, [documentC]⟩) :
    s.answerTo ⟨"1-x"⟩ = .ok latecomer :=
  answerTo_of_segments h (congrArg (fun s => [s])
    (Document.segment_eq (w := content "c" none "1-y") sheet_documentC rfl ⟨"1-x"⟩))
    (List.cons_ne_nil _ _)

theorem layout_sharer : Layout.ofTrace sharer none options.orphans = .ok layoutE := by cbv

theorem layout_latecomer : Layout.ofTrace latecomer none options.orphans = .ok layoutX := by cbv

theorem links_sharer :
    linksOn options 0 layoutE = [(0, segmentE, ⟨"1-x"⟩), (1, segmentF, ⟨"1-x"⟩)] := by cbv

theorem links_latecomer : linksOn options 2 layoutX = [(2, segmentX, ⟨"1-y"⟩)] := by cbv

theorem placed_layoutE (s : Store) :
    (start s).placed ⟨"1-e"⟩ layoutE
      = ⟨s, #[⟨segmentE, [1]⟩, ⟨segmentF, []⟩], [], [⟨"1-e"⟩], false, []⟩ := by
  have hnodes : layoutE.nodes 0 = [⟨segmentE, [1]⟩, ⟨segmentF, []⟩] := by cbv
  rw [placed, show (start s).nodes.size = 0 from rfl, hnodes]
  rfl

/-- The tree of the trace with the two links, when the trace they lead to is missing. -/
def sharedTree : Tree where
  nodes := #[⟨segmentE, [1]⟩, ⟨segmentF, []⟩]
  root := 0
  paths := [[0, 1]]
  sourceTrace := sharer
  childTraces := []
  linkLimitExceeded := false
  unresolved := [⟨"a", ⟨"1-x"⟩, .notFound⟩, ⟨"b", ⟨"1-x"⟩, .notFound⟩]

/-- The first store after calls. -/
def sharedAfter (requests : List (List TraceId)) : Store := { shared with requests := requests }

theorem trace_sharedAfter (requests : List (List TraceId)) (id : TraceId) :
    Lookup.trace ⟨backend, 10⟩ id (sharedAfter requests)
      = (shared.answerTo id, sharedAfter (requests ++ [[id]])) :=
  trace_frozen ⟨rfl, fun _ => rfl⟩ 9 id

/-- Both links lead to a trace that stays missing. -/
theorem build_shared : Tree.build ⟨backend, 10⟩ (Header.ofRoot ⟨"1-e"⟩) options shared
    = (.ok sharedTree, sharedAfter [[⟨"1-e"⟩], [⟨"1-x"⟩], [⟨"1-x"⟩]]) := by
  have hsource := trace_sharedAfter [] ⟨"1-e"⟩
  rw [answerTo_sharer _ rfl] at hsource
  have hall : followAll ⟨backend, 10⟩ (deeper ⟨backend, 10⟩ options 1) (linksOn options 0 layoutE)
      ((start (sharedAfter [[⟨"1-e"⟩]])).placed ⟨"1-e"⟩ layoutE)
      = (.ok (), ⟨sharedAfter [[⟨"1-e"⟩], [⟨"1-x"⟩], [⟨"1-x"⟩]], sharedTree.nodes, [], [⟨"1-e"⟩],
          false, sharedTree.unresolved⟩) := by
    rw [links_sharer, placed_layoutE]
    refine (FollowStep.followAll_ok
      (.missing _ _ _ (by simp) rfl rfl (trace_sharedAfter [[⟨"1-e"⟩]] ⟨"1-x"⟩)) _).trans ?_
    exact FollowStep.followAll_ok
      (.missing _ _ _ (by simp) rfl rfl (trace_sharedAfter [[⟨"1-e"⟩], [⟨"1-x"⟩]] ⟨"1-x"⟩)) []
  have hsplice : splice ⟨backend, 10⟩ options 1 sharer none (.start (sharedAfter [[⟨"1-e"⟩]]))
      = (.ok 0, ⟨sharedAfter [[⟨"1-e"⟩], [⟨"1-x"⟩], [⟨"1-x"⟩]], sharedTree.nodes, [], [], false,
          sharedTree.unresolved⟩) := by
    rw [splice_eq, enter_of_links layout_sharer hall]
    rfl
  exact build_eq_ok.mpr ⟨assemble_eq_ok.mpr ⟨sharer, _, 0, _, hsource, hsplice, rfl, rfl⟩, .inl rfl⟩

/-- The tree of the trace with the two links, when the trace they lead to is late. -/
def lateTree : Tree where
  nodes := #[⟨segmentE, [1]⟩, ⟨segmentF, [2]⟩, ⟨segmentX, []⟩]
  root := 0
  paths := [[0, 1, 2]]
  sourceTrace := sharer
  childTraces := [(⟨"1-x"⟩, latecomer)]
  linkLimitExceeded := true
  unresolved := [⟨"a", ⟨"1-x"⟩, .notFound⟩, ⟨"c", ⟨"1-y"⟩, .depthLimit⟩]

/-- The second store after calls, when the late trace is to be put off a number of times. -/
def lateAfter (times : Nat) (requests : List (List TraceId)) : Store :=
  { late with deferrals := [(⟨"1-x"⟩, times)], requests := requests }

theorem placed_layoutX (s : Store) (unresolved : List UnresolvedLink) :
    placed ⟨s, #[⟨segmentE, [1]⟩, ⟨segmentF, []⟩], lateTree.childTraces, [⟨"1-e"⟩], false,
        unresolved⟩ ⟨"1-x"⟩ layoutX
      = ⟨s, #[⟨segmentE, [1]⟩, ⟨segmentF, []⟩, ⟨segmentX, []⟩], lateTree.childTraces,
          [⟨"1-e"⟩, ⟨"1-x"⟩], false, unresolved⟩ := by
  have hnodes : layoutX.nodes 2 = [⟨segmentX, []⟩] := by cbv
  unfold placed
  rw [show Array.size #[(⟨segmentE, [1]⟩ : Node), ⟨segmentF, []⟩] = 2 from rfl, hnodes]
  rfl

/-- The late trace is entered when it is found at last. -/
theorem enter_latecomer (s : Store) :
    splice ⟨backend, 1⟩ options 0 latecomer none
      ⟨s, #[⟨segmentE, [1]⟩, ⟨segmentF, []⟩], lateTree.childTraces, [⟨"1-e"⟩], false,
        [⟨"a", ⟨"1-x"⟩, .notFound⟩]⟩
      = (.ok 2, ⟨s, #[⟨segmentE, [1]⟩, ⟨segmentF, []⟩, ⟨segmentX, []⟩], lateTree.childTraces,
          [⟨"1-e"⟩], true, lateTree.unresolved⟩) := by
  have hall : followAll ⟨backend, 1⟩ (deeper ⟨backend, 1⟩ options 0) (linksOn options 2 layoutX)
      (placed ⟨s, #[⟨segmentE, [1]⟩, ⟨segmentF, []⟩], lateTree.childTraces, [⟨"1-e"⟩], false,
        [⟨"a", ⟨"1-x"⟩, .notFound⟩]⟩ ⟨"1-x"⟩ layoutX)
      = (.ok (), ⟨s, #[⟨segmentE, [1]⟩, ⟨segmentF, []⟩, ⟨segmentX, []⟩], lateTree.childTraces,
          [⟨"1-e"⟩, ⟨"1-x"⟩], true, lateTree.unresolved⟩) := by
    rw [links_latecomer, placed_layoutX]
    exact FollowStep.followAll_ok (.tooDeep (by simp) rfl) []
  rw [splice_eq, enter_of_links layout_latecomer hall]
  rfl

/-- The first of two links leads to a trace that is not there yet, the second to the same trace,
which is. -/
theorem build_late : Tree.build ⟨backend, 1⟩ (Header.ofRoot ⟨"1-e"⟩) options late
    = (.ok lateTree, lateAfter 0 [[⟨"1-e"⟩], [⟨"1-x"⟩], [⟨"1-x"⟩]]) := by
  have hsource : Lookup.trace ⟨backend, 1⟩ ⟨"1-e"⟩ (lateAfter 1 [])
      = ((lateAfter 1 []).answerTo ⟨"1-e"⟩, lateAfter 1 [[⟨"1-e"⟩]]) := trace_prompt rfl rfl 0
  rw [answerTo_sharer _ rfl] at hsource
  -- the first question uses the deferral up, and the second one is answered
  have hfirst : Lookup.trace ⟨backend, 1⟩ ⟨"1-x"⟩ (lateAfter 1 [[⟨"1-e"⟩]])
      = (.error (.traceNotFound ⟨"1-x"⟩), lateAfter 0 [[⟨"1-e"⟩], [⟨"1-x"⟩]]) := rfl
  have hsecond : Lookup.trace ⟨backend, 1⟩ ⟨"1-x"⟩ (lateAfter 0 [[⟨"1-e"⟩], [⟨"1-x"⟩]])
      = ((lateAfter 0 [[⟨"1-e"⟩], [⟨"1-x"⟩]]).answerTo ⟨"1-x"⟩,
          lateAfter 0 [[⟨"1-e"⟩], [⟨"1-x"⟩], [⟨"1-x"⟩]]) := trace_prompt rfl rfl 0
  rw [answerTo_latecomer _ rfl] at hsecond
  have hall : followAll ⟨backend, 1⟩ (deeper ⟨backend, 1⟩ options 1) (linksOn options 0 layoutE)
      ((start (lateAfter 1 [[⟨"1-e"⟩]])).placed ⟨"1-e"⟩ layoutE)
      = (.ok (), ⟨lateAfter 0 [[⟨"1-e"⟩], [⟨"1-x"⟩], [⟨"1-x"⟩]], lateTree.nodes,
          lateTree.childTraces, [⟨"1-e"⟩], true, lateTree.unresolved⟩) := by
    rw [links_sharer, placed_layoutE]
    refine (FollowStep.followAll_ok (.missing _ _ _ (by simp) rfl rfl hfirst) _).trans ?_
    have hentered : FollowStep ⟨backend, 1⟩ (deeper ⟨backend, 1⟩ options 1) 1 segmentF ⟨"1-x"⟩
        ⟨lateAfter 0 [[⟨"1-e"⟩], [⟨"1-x"⟩]], #[⟨segmentE, [1]⟩, ⟨segmentF, []⟩], [], [⟨"1-e"⟩],
          false, [⟨"a", ⟨"1-x"⟩, .notFound⟩]⟩ (.ok ()) _ :=
      .entered _ latecomer _ 2 _ (by simp) rfl (.found latecomer _ rfl hsecond) (enter_latecomer _)
    exact hentered.followAll_ok []
  have hsplice : splice ⟨backend, 1⟩ options 1 sharer none (.start (lateAfter 1 [[⟨"1-e"⟩]]))
      = (.ok 0, ⟨lateAfter 0 [[⟨"1-e"⟩], [⟨"1-x"⟩], [⟨"1-x"⟩]], lateTree.nodes,
          lateTree.childTraces, [], true, lateTree.unresolved⟩) := by
    rw [splice_eq, enter_of_links layout_sharer hall]
    rfl
  exact build_eq_ok.mpr ⟨assemble_eq_ok.mpr ⟨sharer, _, 0, _, hsource, hsplice, rfl, rfl⟩, .inl rfl⟩

end Store.Sample

open Store.Sample in
/-- A trace that stays missing is looked up for each of the two links to it. -/
theorem Tree.lookedUp_sample :
    shared.Frozen ∧
      Tree.build ⟨Store.backend, 10⟩ (Header.ofRoot ⟨"1-e"⟩) options shared
        = (.ok sharedTree, sharedAfter [[⟨"1-e"⟩], [⟨"1-x"⟩], [⟨"1-x"⟩]]) ∧
      ∃ asked, Tree.LookedUp (Header.ofRoot ⟨"1-e"⟩) asked
          (Tree.build ⟨Store.backend, 10⟩ (Header.ofRoot ⟨"1-e"⟩) options shared).1 ∧
        asked.map (fun q => [q.id]) = [[⟨"1-e"⟩], [⟨"1-x"⟩], [⟨"1-x"⟩]] ∧
        ((asked.map Ask.id).Nodup ↔ sharedTree.missing.Nodup) := by
  have hfrozen : shared.Frozen := ⟨rfl, fun _ => rfl⟩
  obtain ⟨asked, hlooked, hrequests, htree⟩ :=
    (Tree.lookedUp_of_build (Header.ofRoot ⟨"1-e"⟩) options).2 9 hfrozen
  refine ⟨hfrozen, build_shared, asked, hlooked, ?_, ?_⟩
  · rw [build_shared] at hrequests
    exact hrequests.symm
  · exact (htree sharedTree (by rw [build_shared])).1

open Store.Sample in
/-- A trace that is not found is looked up for each of two links to it.  If it is found the second
time, it is in the tree and listed as not found. -/
theorem Tree.lookups_repeated :
    Tree.build ⟨Store.backend, 10⟩ (Header.ofRoot ⟨"1-e"⟩) options shared
        = (.ok sharedTree, sharedAfter [[⟨"1-e"⟩], [⟨"1-x"⟩], [⟨"1-x"⟩]]) ∧
      shared.Frozen ∧ shared.requests = [] ∧
      ¬ (sharedAfter [[⟨"1-e"⟩], [⟨"1-x"⟩], [⟨"1-x"⟩]]).requests.Nodup ∧
      Tree.build ⟨Store.backend, 1⟩ (Header.ofRoot ⟨"1-e"⟩) options late
        = (.ok lateTree, lateAfter 0 [[⟨"1-e"⟩], [⟨"1-x"⟩], [⟨"1-x"⟩]]) ∧
      ⟨"1-x"⟩ ∈ lateTree.missing ∧ lateTree.childTraces.get? ⟨"1-x"⟩ = some latecomer :=
  ⟨build_shared, ⟨rfl, fun _ => rfl⟩, rfl, by decide, build_late, by decide, rfl⟩

end CausalTrace
