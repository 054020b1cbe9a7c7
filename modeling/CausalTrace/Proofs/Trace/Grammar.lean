import CausalTrace.Proofs.Trace.Codec
import CausalTrace.Proofs.Trace.Content

/-!
# The grammar of tracing headers

What a text says as a tracing header, said of all its components at once.  They are read one after
the other, and each of the three keys has a rule of its own for what a further component does to
what is known already; over a whole text the rules come to this: the first root counts, the last
parent that is not blank, and the last sampling decision.

## Main definitions

* `Header.Spells`, `Header.Splits` — the components that a text is made of
* `Header.firstRoot?`, `Header.lastParent?`, `Header.lastSampled?` — the components that count
* `Header.Says` — the header that components stand for

## Main statements

* `Header.splits_iff` — every text is made of components in one way
* `Header.foldlM_heard` — reading components that bring no first root
* `Header.parse_eq` — what a text is read as, by the components that count
* `Header.parse_grammar` — when a text is read, what it says, and what it does not depend on

## Design notes

The first root splits the components: before it nothing is known of a root, and behind it nothing
more can be learnt of one.  On both sides of it the other keys are only heard, which never fails, so
that one induction (`foldlM_heard`) serves for both.
-/

namespace CausalTrace.Header

open Text

/-! ### Components -/

/-- What the text between two semicolons says.  Its key counts trimmed and in lower case, its value
trimmed. -/
inductive Spells : List Char → Component → Prop
  /-- Without an equals sign all of it is the key, and there is no value. -/
  | bare {key : List Char} (hkey : '=' ∉ key) :
      Spells key ⟨String.ofList ((trimChars key).map Char.toLower), none⟩
  /-- The first equals sign stands between the key and the value. -/
  | pair {key value : List Char} (hkey : '=' ∉ key) :
      Spells (key ++ '=' :: value) ⟨String.ofList ((trimChars key).map Char.toLower),
        some (String.ofList (trimChars value))⟩

/-- The components of a text: what the texts between its semicolons say, in order. -/
def Splits (s : String) (cs : List Component) : Prop :=
  ∃ pieces : List (List Char), pieces ≠ [] ∧ (∀ piece ∈ pieces, ';' ∉ piece) ∧
    [';'].intercalate pieces = s.toList ∧ List.Forall₂ Spells pieces cs

/-- Every text between semicolons spells a component. -/
theorem spells_ofChars (s : List Char) : Spells s (Component.ofChars s) := by
  have hkey : '=' ∉ s.takeWhile (· ≠ '=') := fun h => by simpa using List.mem_takeWhile_imp h
  have hs := List.takeWhile_append_dropWhile (p := (· ≠ '=')) (l := s)
  unfold Component.ofChars
  cases hrest : s.dropWhile (· ≠ '=') with
  | nil =>
      rw [hrest, List.append_nil] at hs
      rw [hs] at hkey ⊢
      exact .bare hkey
  | cons e value =>
      have he : e = '=' := by
        have hhead := List.head?_dropWhile_not (· ≠ '=') s
        rw [hrest] at hhead
        simpa using hhead
      rw [hrest, he] at hs
      have hspells : Spells (s.takeWhile (· ≠ '=') ++ '=' :: value) _ := .pair hkey
      rwa [hs] at hspells

theorem spells_iff {s : List Char} {c : Component} : Spells s c ↔ Component.ofChars s = c := by
  constructor
  · rintro (hkey | hkey)
    · exact Component.ofChars_bare hkey
    · exact Component.ofChars_pair hkey _
  · rintro rfl
    exact spells_ofChars s

/-- Texts spell the components that are made of them. -/
theorem forall₂_spells_iff {pieces : List (List Char)} {cs : List Component} :
    List.Forall₂ Spells pieces cs ↔ pieces.map Component.ofChars = cs := by
  rw [← List.forall₂_eq_eq_eq, List.forall₂_map_left_iff]
  simp only [← spells_iff]

/-- Every text is made of components in one way. -/
theorem splits_iff {s : String} {cs : List Component} : Splits s cs ↔ cs = components s := by
  unfold components
  constructor
  · rintro ⟨pieces, hne, hpieces, hs, hcs⟩
    rw [← hs, List.splitOn_intercalate ';' hpieces hne, forall₂_spells_iff.mp hcs]
  · rintro rfl
    exact ⟨s.toList.splitOn ';', List.splitOn_ne_nil _ _, fun _ => not_mem_of_mem_splitOn _,
      List.intercalate_splitOn _, forall₂_spells_iff.mpr rfl⟩

/-! ### The components that count -/

/-- The values of a key, in order.  A component without an equals sign has none. -/
def valuesOf (key : String) (cs : List Component) : List String :=
  (cs.filter fun c => c.key = key).filterMap Component.value

/-- The first component that names the trace. -/
def firstRoot? (cs : List Component) : Option Component := cs.find? fun c => c.key = "root"

/-- The last value for the segment of the caller that is not blank. -/
def lastParent? (cs : List Component) : Option String :=
  ((valuesOf "parent" cs).filter fun v => !isBlank v).getLast?

/-- The last value for the sampling decision. -/
def lastSampled? (cs : List Component) : Option String := (valuesOf "sampled" cs).getLast?

/-- The header that components stand for. -/
structure Says (cs : List Component) (h : Header) : Prop where
  root : ∃ c, firstRoot? cs = some c ∧ c.value = some h.root.text
  present : isBlank h.root.text = false
  parent : h.parent = lastParent? cs
  /-- The decision is known if the last value for it is one of two. -/
  sampled : ∀ b, h.sampled = some b ↔ lastSampled? cs = some (decisionText b)

/-- Only the two texts of decisions decide. -/
theorem decision_eq_some {v : String} {b : Bool} : decision v = some b ↔ v = decisionText b := by
  unfold decision decisionText
  split_ifs <;> simp_all

/-! ### Reading -/

/-- What is known after components that bring no first root: the other keys are heard. -/
def Found.heard (f : Found) (cs : List Component) : Found :=
  ⟨f.root, (lastParent? cs).or f.parent, (lastSampled? cs).elim f.sampled decision⟩

/-- Later components decide about the segment of the caller. -/
theorem lastParent?_append (cs cs' : List Component) :
    lastParent? (cs ++ cs') = (lastParent? cs').or (lastParent? cs) := by
  simp [lastParent?, valuesOf, List.getLast?_append]

theorem lastSampled?_append (cs cs' : List Component) :
    lastSampled? (cs ++ cs') = (lastSampled? cs').or (lastSampled? cs) := by
  simp [lastSampled?, valuesOf, List.getLast?_append]

theorem Found.heard_append (f : Found) (cs cs' : List Component) :
    f.heard (cs ++ cs') = (f.heard cs).heard cs' := by
  unfold heard
  rw [lastParent?_append, lastSampled?_append, Option.or_assoc]
  cases lastSampled? cs' <;> rfl

theorem valuesOf_singleton (key : String) (c : Component) :
    valuesOf key [c] = if c.key = key then c.value.toList else [] := by
  unfold valuesOf
  split_ifs with h <;> cases hv : c.value <;> simp [h, hv]

/-- A component with another key than that of the root, or with a further root, is heard. -/
theorem Found.add_heard {f : Found} {c : Component}
    (htrimmed : ∀ v ∈ c.value, isBlank v = true ↔ v = "")
    (hroot : c.key = "root" → f.root ≠ none) : f.add c = .ok (f.heard [c]) := by
  unfold add heard lastParent? lastSampled?
  rw [valuesOf_singleton, valuesOf_singleton]
  obtain ⟨root, parent, sampled⟩ := f
  by_cases hkey : c.key = "root"
  · obtain ⟨r, rfl⟩ := Option.ne_none_iff_exists'.mp (hroot hkey)
    simp [hkey]
  · cases hvalue : c.value with
    | none => simp [hkey]
    | some v =>
        have hblank : isBlank v = decide (v = "") := by
          rw [Bool.eq_iff_iff, decide_eq_true_iff]
          exact htrimmed v hvalue
        by_cases hparent : c.key = "parent"
        · rcases eq_or_ne v "" with rfl | hv
          · simp [hparent, hblank]
          · simp [hparent, hblank, hv]
        · by_cases hsampled : c.key = "sampled" <;> simp [hkey, hparent, hsampled]

/-- The first root is taken, unless it is blank or has no value. -/
theorem Found.add_firstRoot {f : Found} {c : Component}
    (htrimmed : ∀ v ∈ c.value, isBlank v = true ↔ v = "") (hkey : c.key = "root")
    (hroot : f.root = none) : f.add c = match c.value.bind nonBlank? with
      | none => .error .emptyRoot
      | some v => .ok { f with root := some ⟨v⟩ } := by
  unfold add
  rw [if_pos hkey, hroot]
  cases hvalue : c.value with
  | none => rfl
  | some v =>
      have hblank := htrimmed v hvalue
      unfold nonBlank?
      by_cases hv : v = ""
      · simp [hv, ← hblank.mpr hv]
      · simp [hv, Bool.eq_false_iff.mpr fun h => hv (hblank.mp h)]

/-- Components of which none is the first root are heard one after the other. -/
theorem foldlM_heard {cs : List Component}
    (htrimmed : ∀ c ∈ cs, ∀ v ∈ c.value, isBlank v = true ↔ v = "") :
    ∀ {f : Found}, (∀ c ∈ cs, c.key = "root" → f.root ≠ none) →
      cs.foldlM Found.add f = .ok (f.heard cs) := by
  induction cs with
  | nil => exact fun _ => rfl
  | cons c cs ih =>
      intro f hroot
      rw [List.forall_mem_cons] at htrimmed hroot
      have hrest : cs.foldlM Found.add (f.heard [c]) = .ok ((f.heard [c]).heard cs) :=
        ih htrimmed.2 hroot.2
      rw [List.foldlM_cons, Found.add_heard htrimmed.1 hroot.1, Except.ok_bind, hrest,
        ← Found.heard_append, List.singleton_append]

/-- Values are trimmed when components are taken from a text. -/
theorem isBlank_iff_of_components {s : String} : ∀ c ∈ components s, ∀ v ∈ c.value,
    isBlank v = true ↔ v = "" := by
  intro c hc v hv
  obtain ⟨piece, -, rfl⟩ := List.mem_map.mp hc
  obtain ⟨u, -, rfl⟩ := Component.exists_of_value hv
  exact isBlank_trimChars u

/-- Behind the first root nothing more is learnt of it, and from it nothing about other keys. -/
theorem Found.heard_firstRoot (f : Found) {c : Component} (hkey : c.key = "root")
    (before after : List Component) (root : Option TraceId) :
    ({ f.heard before with root := root } : Found).heard after
      = { f.heard (before ++ c :: after) with root := root } := by
  have hvalues : ∀ key ∈ ["parent", "sampled"], valuesOf key (c :: after) = valuesOf key after := by
    intro key hmem
    have hne : c.key ≠ key := by
      rw [hkey]
      rintro rfl
      revert hmem
      decide
    unfold valuesOf
    rw [List.filter_cons_of_neg (by simpa using hne)]
  have hparent : lastParent? (c :: after) = lastParent? after := by
    unfold lastParent?
    rw [hvalues "parent" (by decide)]
  have hsampled : lastSampled? (c :: after) = lastSampled? after := by
    unfold lastSampled?
    rw [hvalues "sampled" (by decide)]
  rw [heard_append]
  unfold heard
  rw [hparent, hsampled]

/-- What a text is read as, by its first root. -/
theorem parse_eq (s : String) : parse s = match firstRoot? (components s) with
    | none => .error .missingRoot
    | some c => match c.value.bind nonBlank? with
      | none => .error .emptyRoot
      | some v => .ok ⟨⟨v⟩, lastParent? (components s),
          (lastSampled? (components s)).bind decision⟩ := by
  have htrimmed := isBlank_iff_of_components (s := s)
  unfold parse
  generalize components s = cs at htrimmed
  cases hfirst : firstRoot? cs with
  | none =>
      have hnone : ∀ c ∈ cs, c.key = "root" → (none : Option TraceId) ≠ none := by
        intro c hc hkey
        exact absurd hkey (by simpa using List.find?_eq_none.mp hfirst c hc)
      rw [foldlM_heard htrimmed hnone]
      rfl
  | some c =>
      -- the components are heard up to the first root, and behind it once it is known
      obtain ⟨hkey, before, after, rfl, hbefore⟩ := List.find?_eq_some_iff_append.mp hfirst
      rw [decide_eq_true_iff] at hkey
      rw [List.forall_mem_append, List.forall_mem_cons] at htrimmed
      obtain ⟨htrimmedBefore, htrimmedRoot, htrimmedAfter⟩ := htrimmed
      have hnone : ∀ c ∈ before, c.key = "root" → (none : Option TraceId) ≠ none := by
        intro c hc hroot
        exact absurd hroot (by simpa using hbefore c hc)
      rw [List.foldlM_append, foldlM_heard htrimmedBefore hnone, Except.ok_bind, List.foldlM_cons,
        Found.add_firstRoot htrimmedRoot hkey rfl]
      dsimp only
      generalize c.value.bind nonBlank? = value
      cases value with
      | none => rfl
      | some v =>
          dsimp only
          rw [Except.ok_bind, foldlM_heard htrimmedAfter fun _ _ _ => by simp, Except.ok_bind,
            Found.heard_firstRoot _ hkey]
          unfold Found.heard
          rw [Option.or_none]
          cases lastSampled? (before ++ c :: after) <;> rfl

/-- The header that components stand for, field by field. -/
theorem says_iff {cs : List Component} {h : Header} : Says cs h ↔
    ∃ c v, firstRoot? cs = some c ∧ c.value.bind nonBlank? = some v ∧
      h = ⟨⟨v⟩, lastParent? cs, (lastSampled? cs).bind decision⟩ := by
  constructor
  · rintro ⟨⟨c, hfirst, hvalue⟩, hpresent, hparent, hsampled⟩
    refine ⟨c, h.root.text, hfirst, ?_, ?_⟩
    · rw [hvalue]
      exact nonBlank?_eq_some.mpr ⟨rfl, hpresent⟩
    · obtain ⟨root, parent, sampled⟩ := h
      have hdecision : sampled = (lastSampled? cs).bind decision := by
        ext b
        rw [hsampled b, Option.bind_eq_some_iff]
        simp [decision_eq_some]
      rw [hdecision, ← hparent]
  · rintro ⟨c, v, hfirst, hvalue, rfl⟩
    obtain ⟨u, hu, huv⟩ := Option.bind_eq_some_iff.mp hvalue
    obtain ⟨rfl, hpresent⟩ := nonBlank?_eq_some.mp huv
    refine ⟨⟨c, hfirst, hu⟩, hpresent, rfl, fun b => ?_⟩
    rw [Option.bind_eq_some_iff]
    simp [decision_eq_some]

/-- The root is missing when no component has its key. -/
theorem parse_eq_missingRoot {s : String} :
    parse s = .error .missingRoot ↔ ∀ c ∈ components s, c.key ≠ "root" := by
  rw [parse_eq]
  cases hfirst : firstRoot? (components s) with
  | none => simpa using List.find?_eq_none.mp hfirst
  | some c =>
      have hkey : c.key = "root" := by simpa using List.find?_some hfirst
      refine iff_of_false ?_ fun h => h c (List.mem_of_find?_eq_some hfirst) hkey
      dsimp only
      cases c.value.bind nonBlank? <;> simp

/-- The root is empty when the first component that has its key says nothing. -/
theorem parse_eq_emptyRoot {s : String} : parse s = .error .emptyRoot ↔
    ∃ c, firstRoot? (components s) = some c ∧ ∀ v ∈ c.value, isBlank v = true := by
  rw [parse_eq]
  cases firstRoot? (components s) with
  | none => simp
  | some c =>
      simp only [Option.some.injEq, exists_eq_left', ← bind_nonBlank?_eq_none]
      cases c.value.bind nonBlank? <;> simp

/-- A text is read as the header that its components stand for. -/
theorem parse_eq_ok_iff_says {s : String} {h : Header} :
    parse s = .ok h ↔ Says (components s) h := by
  rw [parse_eq, says_iff]
  cases firstRoot? (components s) with
  | none => simp
  | some c =>
      simp only [Option.some.injEq, exists_and_left, exists_eq_left']
      cases c.value.bind nonBlank? with
      | none => simp
      | some v => simp [eq_comm]

/-! ### What does not matter -/

/-- Texts with the same components that count are read alike. -/
theorem parse_congr {s s' : String}
    (hroot : firstRoot? (components s') = firstRoot? (components s))
    (hparent : lastParent? (components s') = lastParent? (components s))
    (hsampled : lastSampled? (components s') = lastSampled? (components s)) :
    parse s' = parse s := by
  rw [parse_eq, parse_eq, hroot, hparent, hsampled]

/-- Texts with the same components of each key, in whatever order they are mixed, are read alike. -/
theorem parse_congr_keys {s s' : String} (hkeys : ∀ key ∈ ["root", "parent", "sampled"],
    (components s').filter (fun c => c.key = key) = (components s).filter fun c => c.key = key) :
    parse s' = parse s := by
  have hvalues : ∀ key ∈ ["root", "parent", "sampled"],
      valuesOf key (components s') = valuesOf key (components s) :=
    fun key hkey => congrArg (List.filterMap Component.value) (hkeys key hkey)
  refine parse_congr ?_ ?_ ?_
  · unfold firstRoot?
    rw [← List.head?_filter, ← List.head?_filter, hkeys "root" (by simp)]
  · unfold lastParent?
    rw [hvalues "parent" (by simp)]
  · unfold lastSampled?
    rw [hvalues "sampled" (by simp)]

/-- Tracing headers follow their grammar.  Every text is made of components in one way.  It is
refused if none of them is a root, or if the first one that is has no value or a blank one;
otherwise it is read as the header that the components stand for.  Nothing else of it matters: not
what is said of the trace later on, nor blank values for the caller, nor other keys, nor in which
order components with different keys follow each other. -/
theorem parse_grammar (s : String) : ∃ cs, (∀ cs', Splits s cs' ↔ cs' = cs) ∧
    (parse s = .error .missingRoot ↔ ∀ c ∈ cs, c.key ≠ "root") ∧
    (parse s = .error .emptyRoot ↔
      ∃ c, firstRoot? cs = some c ∧ ∀ v ∈ c.value, isBlank v = true) ∧
    (∀ h, parse s = .ok h ↔ Says cs h) ∧
    (∀ s' cs', Splits s' cs' → firstRoot? cs' = firstRoot? cs → lastParent? cs' = lastParent? cs →
      lastSampled? cs' = lastSampled? cs → parse s' = parse s) ∧
    ∀ s' cs', Splits s' cs' → (∀ key ∈ ["root", "parent", "sampled"],
      cs'.filter (fun c => c.key = key) = cs.filter fun c => c.key = key) → parse s' = parse s := by
  refine ⟨components s, fun cs' => splits_iff, parse_eq_missingRoot, parse_eq_emptyRoot,
    fun h => parse_eq_ok_iff_says, ?counting, ?mixing⟩
  case counting =>
    intro s' cs' hsplits hroot hparent hsampled
    obtain rfl := splits_iff.mp hsplits
    exact parse_congr hroot hparent hsampled
  case mixing =>
    intro s' cs' hsplits hkeys
    obtain rfl := splits_iff.mp hsplits
    exact parse_congr_keys hkeys

example : parse "Parent=a;root;Root=1-a" = .error .emptyRoot := rfl

end CausalTrace.Header
