import CausalTrace.Proofs.Backend.Lookup
import Mathlib.Data.List.Forall2
import Mathlib.Data.Option.Defs

/-!
# Coupled computations

Two computations, each over a state of its own, are coupled when they end alike from related states:
with related results or with the same failure, and in related states again.  Whatever two programs
are made of in the same way is coupled if its parts are, so that a comparison of two backends says
something about all that is done with them.

## Main definitions

* `Agree` — two results that are related values or the same failure
* `Action.Coupled` — computations that end alike
* `Table.Alike` — tables with the same keys and related values
* `Backend.Coupled`, `Lookup.Coupled` — backends and look-ups that answer alike
* `Backend.recorded`, `Lookup.recorded` — a backend with the list of the calls made of it

## Main statements

* `Action.Coupled.bind` — one computation after another
* `Lookup.coupled_of_backend` — look-ups answer alike if the backends do
* `Lookup.coupled_of_same` — and give the same answers if the backends do
* `Lookup.coupled_recorded` — recording the calls changes nothing else

## Design notes

Which records two backends may hand out in each other's place is a parameter.  All that a look-up
needs to know of two such records is that they have one id and agree about the trace they hold.
-/

namespace CausalTrace

/-- Two results that agree: related values, or the same failure. -/
inductive Agree {ε α β : Type} (V : α → β → Prop) : Except ε α → Except ε β → Prop
  | ok {x : α} {y : β} : V x y → Agree V (.ok x) (.ok y)
  | error (e : ε) : Agree V (.error e) (.error e)

/-! ### Computations -/

namespace Action

variable {σ τ α β γ δ : Type} {R : σ → τ → Prop} {V : α → β → Prop} {W : γ → δ → Prop}

/-- Two computations end alike from related states, and in related states. -/
def Coupled (R : σ → τ → Prop) (V : α → β → Prop) (x : Action σ α) (y : Action τ β) : Prop :=
  ∀ s s', R s s' → Agree V (x s).1 (y s').1 ∧ R (x s).2 (y s').2

namespace Coupled

theorem pure {a : α} {b : β} (h : V a b) : Coupled R V (pure a) (pure b) :=
  fun _ _ hs => ⟨.ok h, hs⟩

theorem fail (e : Failure) : Coupled R V (Action.fail e) (Action.fail e) :=
  fun _ _ hs => ⟨.error e, hs⟩

theorem ofExcept {x : Except Failure α} {y : Except Failure β} (h : Agree V x y) :
    Coupled R V (Action.ofExcept x) (Action.ofExcept y) :=
  fun _ _ hs => ⟨h, hs⟩

theorem get : Coupled R R Action.get Action.get := fun _ _ hs => ⟨.ok hs, hs⟩

theorem modify {f : σ → σ} {g : τ → τ} (h : ∀ s s', R s s' → R (f s) (g s')) :
    Coupled R (fun _ _ => True) (Action.modify f) (Action.modify g) :=
  fun s s' hs => ⟨.ok trivial, h s s' hs⟩

/-- One computation, and then another that depends on its result. -/
theorem bind {x : Action σ α} {y : Action τ β} {f : α → Action σ γ} {g : β → Action τ δ}
    (hx : Coupled R V x y) (hf : ∀ a b, V a b → Coupled R W (f a) (g b)) :
    Coupled R W (x >>= f) (y >>= g) := by
  intro s s' hs
  rw [bind_apply, bind_apply]
  obtain ⟨hagree, hs₁⟩ := hx s s' hs
  generalize x s = p at hagree hs₁ ⊢
  generalize y s' = q at hagree hs₁ ⊢
  obtain ⟨r, s₁⟩ := p
  obtain ⟨r', s₁'⟩ := q
  cases hagree with
  | ok h => exact hf _ _ h _ _ hs₁
  | error e => exact ⟨.error e, hs₁⟩

end Coupled

end Action

/-! ### Tables -/

namespace Table

variable {κ α β : Type} {V : α → β → Prop}

/-- Two tables have the same keys and, under each of them, related values. -/
def Alike (V : α → β → Prop) : Table κ α → Table κ β → Prop :=
  List.Forall₂ fun e e' => e'.1 = e.1 ∧ V e.2 e'.2

theorem Alike.keys {t : Table κ α} {t' : Table κ β} (h : t.Alike V t') : t'.keys = t.keys := by
  induction h with
  | nil => rfl
  | cons he _ ih => exact congrArg₂ List.cons he.1 ih

theorem Alike.eq {t t' : Table κ α} (h : t.Alike (fun x y => y = x) t') : t' = t := by
  induction h with
  | nil => rfl
  | cons he _ ih => rw [ih, Prod.ext he.1 he.2]

variable [DecidableEq κ]

/-- Alike tables hold related values under a key, or none. -/
theorem Alike.get? {t : Table κ α} {t' : Table κ β} (h : t.Alike V t') (k : κ) :
    Option.Rel V (t.get? k) (t'.get? k) := by
  induction h with
  | nil => exact .none
  | @cons e e' _ _ he _ ih =>
      obtain ⟨j, v⟩ := e
      obtain ⟨j', v'⟩ := e'
      obtain ⟨rfl, hv⟩ := he
      unfold Table.get?
      split
      · exact .some hv
      · exact ih

theorem Alike.contains {t : Table κ α} {t' : Table κ β} (h : t.Alike V t') (k : κ) :
    t'.contains k = t.contains k := by
  have hget := h.get? k
  unfold Table.contains
  generalize t.get? k = x at hget ⊢
  generalize t'.get? k = y at hget ⊢
  cases hget <;> rfl

/-- Related values may be inserted under one key. -/
theorem Alike.insert [LT κ] [DecidableLT κ] {t : Table κ α} {t' : Table κ β} (h : t.Alike V t')
    (k : κ) {v : α} {v' : β} (hv : V v v') : (t.insert k v).Alike V (t'.insert k v') := by
  induction h with
  | nil => exact .cons ⟨rfl, hv⟩ .nil
  | @cons e e' _ _ he hrest ih =>
      obtain ⟨j, u⟩ := e
      obtain ⟨j', u'⟩ := e'
      obtain ⟨rfl, hu⟩ := he
      unfold Table.insert
      split
      · exact .cons ⟨rfl, hv⟩ (.cons ⟨rfl, hu⟩ hrest)
      · split
        · exact .cons ⟨rfl, hv⟩ hrest
        · exact .cons ⟨rfl, hu⟩ ih

end Table

/-! ### Backends -/

variable {σ τ : Type} {R : σ → τ → Prop} {T : Trace → Trace → Prop}
  {Interchange : TraceRecord → TraceRecord → Prop}

/-- Two batches hand out records in each other's place, and put off the same ids. -/
structure Batch.Alike (Interchange : TraceRecord → TraceRecord → Prop) (b b' : Batch) : Prop where
  records : List.Forall₂ Interchange b.records b'.records
  unprocessed : b'.unprocessed = b.unprocessed

/-- Two backends answer alike in related states, and keep their states related. -/
def Backend.Coupled (R : σ → τ → Prop) (Interchange : TraceRecord → TraceRecord → Prop)
    (b : Backend σ) (b' : Backend τ) : Prop :=
  ∀ ids s s', R s s' →
    Agree (Batch.Alike Interchange) (b.batch ids s).1 (b'.batch ids s').1 ∧
      R (b.batch ids s).2 (b'.batch ids s').2

namespace Lookup

/-- Two ways of looking traces up answer alike in related states. -/
def Coupled (R : σ → τ → Prop) (T : Trace → Trace → Prop) (l : Lookup σ) (l' : Lookup τ) : Prop :=
  ∀ id, Action.Coupled R T (l.trace id) (l'.trace id)

section

variable (hrecord : ∀ r r', Interchange r r' → r'.id = r.id ∧ Agree T r.trace r'.trace)

include hrecord in
/-- Records in each other's place are read alike. -/
theorem absorb_alike {records records' : List TraceRecord}
    (h : List.Forall₂ Interchange records records') :
    ∀ {found found' : Table TraceId Trace}, found.Alike T found' →
      Agree (Table.Alike T) (absorb found records) (absorb found' records') := by
  induction h with
  | nil => exact fun hfound => .ok hfound
  | @cons r r' _ _ hr _ ih =>
      intro found found' hfound
      obtain ⟨hid, htrace⟩ := hrecord r r' hr
      unfold absorb
      rw [hid, hfound.contains]
      split
      · exact ih hfound
      · generalize r.trace = x at htrace
        generalize r'.trace = y at htrace
        cases htrace with
        | ok ht => exact ih (hfound.insert _ ht)
        | error e => exact .error _

include hrecord in
/-- Rounds end alike when every call of the backends does. -/
theorem rounds_coupled {b : Backend σ} {b' : Backend τ} (hb : Backend.Coupled R Interchange b b') :
    ∀ (n : Nat) (pending : List TraceId) {found found' : Table TraceId Trace},
      found.Alike T found' → Action.Coupled R (Table.Alike T) (rounds b n pending found)
        (rounds b' n pending found') := by
  intro n
  induction n with
  | zero => exact fun pending _ _ hfound => .pure hfound
  | succ n ih =>
      intro pending found found' hfound
      cases pending with
      | nil => exact .pure hfound
      | cons id rest =>
          intro s s' hs
          rw [rounds_cons, rounds_cons]
          obtain ⟨hagree, hs₁⟩ := hb (id :: rest) s s' hs
          generalize b.batch (id :: rest) s = p at hagree hs₁ ⊢
          generalize b'.batch (id :: rest) s' = q at hagree hs₁ ⊢
          obtain ⟨answer, s₁⟩ := p
          obtain ⟨answer', s₁'⟩ := q
          cases hagree with
          | error e => exact ⟨.error _, hs₁⟩
          | @ok batch batch' hbatch =>
              have habsorb := absorb_alike hrecord hbatch.records hfound
              simp only [hbatch.unprocessed]
              generalize absorb found batch.records = x at habsorb
              generalize absorb found' batch'.records = y at habsorb
              cases habsorb with
              | error e => exact ⟨.error _, hs₁⟩
              | ok hfound₁ =>
                  simp only [hfound₁.contains]
                  exact ih _ hfound₁ _ _ hs₁

include hrecord in
/-- Traces are looked up alike if the backends answer alike, in as many rounds at most. -/
theorem coupled_of_backend {l : Lookup σ} {l' : Lookup τ}
    (hb : Backend.Coupled R Interchange l.backend l'.backend)
    (hrounds : l'.maxRounds = l.maxRounds)
    (hempty : ∀ t t', T t t' → t'.segments.isEmpty = t.segments.isEmpty) : Coupled R T l l' := by
  intro id
  unfold trace traces
  rw [hrounds]
  refine (rounds_coupled hrecord hb l.maxRounds _ .nil).bind fun found found' hfound => ?_
  have hget := hfound.get? id
  generalize found.get? id = x at hget
  generalize found'.get? id = y at hget
  cases hget with
  | none => exact .fail _
  | some ht =>
      simp only [hempty _ _ ht]
      split
      · exact .fail _
      · exact .pure ht

end

end Lookup

/-- Traces are looked up in the same way if the backends give the same answers, in as many rounds
at most. -/
theorem Lookup.coupled_of_same {l : Lookup σ} {l' : Lookup τ}
    (hb : ∀ ids s s', R s s' → (l'.backend.batch ids s').1 = (l.backend.batch ids s).1 ∧
      R (l.backend.batch ids s).2 (l'.backend.batch ids s').2)
    (hrounds : l'.maxRounds = l.maxRounds) : Lookup.Coupled R (fun t u => u = t) l l' := by
  have hbackend : Backend.Coupled R (fun r r' => r' = r) l.backend l'.backend := by
    intro ids s s' hs
    obtain ⟨hanswer, hstate⟩ := hb ids s s' hs
    refine ⟨?_, hstate⟩
    rw [hanswer]
    cases (l.backend.batch ids s).1 with
    | ok b => exact .ok ⟨List.forall₂_same.mpr fun _ _ => rfl, rfl⟩
    | error e => exact .error e
  refine coupled_of_backend ?_ hbackend hrounds ?_
  · rintro _ r rfl
    refine ⟨rfl, ?_⟩
    cases r.trace with
    | ok t => exact .ok rfl
    | error e => exact .error e
  · rintro t _ rfl
    rfl

/-! ### Recording calls -/

/-- The backend with the ids of every call made of it. -/
def Backend.recorded (b : Backend σ) : Backend (σ × List (List TraceId)) where
  batch ids s :=
    let (answer, state) := b.batch ids s.1
    (answer, (state, s.2 ++ [ids]))

/-- Looking traces up in a backend whose calls are recorded. -/
def Lookup.recorded (l : Lookup σ) : Lookup (σ × List (List TraceId)) :=
  ⟨l.backend.recorded, l.maxRounds⟩

/-- Traces are looked up as if the calls were not recorded. -/
theorem Lookup.coupled_recorded (l : Lookup σ) :
    Lookup.Coupled (fun s p => p.1 = s) (fun t u => u = t) l l.recorded := by
  refine coupled_of_same ?_ rfl
  rintro ids _ ⟨s, log⟩ rfl
  exact ⟨rfl, rfl⟩

end CausalTrace
