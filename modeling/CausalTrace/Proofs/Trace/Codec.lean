import CausalTrace.Proofs.Text.Trim
import CausalTrace.Trace.Header
import Mathlib.Tactic.SplitIfs

/-!
# Reading back tracing headers

A header is rendered as components between semicolons, and read from the components of a text.  What
is read is always valid, because a component holds no semicolon and its value is trimmed; and the
text of a header reads back as the header just when the header is valid.

## Main definitions

* `Header.pieces` — the texts of a header's components
* `Header.Found.IsValid` — what the components read so far say is valid

## Main statements

* `Header.isValue_iff` — the values that read back
* `Header.components_render` — the components of the text of a valid header
* `Header.isValid_of_parse` — what is read is valid
* `Header.parse_render` — valid headers read back
* `Header.codec` — the headers that read back are the valid ones, which are those that are read
-/

namespace CausalTrace.Header

open Text

/-! ### Splitting -/

/-- A character at which a text is split ends a piece; any other goes to the piece behind it. -/
theorem splitOn_cons (sep c : Char) (s : List Char) : (c :: s).splitOn sep
    = if c = sep then [] :: s.splitOn sep else (s.splitOn sep).modifyHead (c :: ·) := by
  simp only [List.splitOn_eq_splitOnP, List.splitOnP_cons_eq_if_modifyHead, beq_iff_eq]

/-- No piece of a text that is split contains what it is split at. -/
theorem not_mem_of_mem_splitOn {sep : Char} : ∀ (s : List Char) {piece : List Char},
    piece ∈ s.splitOn sep → sep ∉ piece := by
  intro s
  induction s with
  | nil =>
      intro piece h
      rw [List.mem_singleton.mp h]
      exact List.not_mem_nil
  | cons c s ih =>
      intro piece h
      rw [splitOn_cons] at h
      split_ifs at h with hc
      · rcases List.mem_cons.mp h with rfl | h
        · exact List.not_mem_nil
        · exact ih h
      · -- the character goes to the first piece of the rest
        cases hs : s.splitOn sep with
        | nil =>
            rw [hs] at h
            cases h
        | cons first rest =>
            rw [hs] at h ih
            rcases List.mem_cons.mp h with rfl | h
            · have hfirst : sep ∉ first := ih List.mem_cons_self
              simp [hfirst, Ne.symm hc]
            · exact ih (List.mem_cons_of_mem _ h)

/-! ### Values -/

/-- The values that read back are not empty, hold no semicolon, and neither start nor end with white
space. -/
theorem isValue_iff {v : String} : IsValue v ↔ v ≠ "" ∧ ';' ∉ v.toList ∧
    (∀ c ∈ v.toList.head?, isBlankChar c = false) ∧
      ∀ c ∈ v.toList.getLast?, isBlankChar c = false := by
  unfold IsValue
  rw [trim_eq_self_iff]

/-- A value that is read from a component is trimmed, and adds nothing to the component. -/
theorem Component.exists_of_value {s : List Char} {v : String} (h : (ofChars s).value = some v) :
    ∃ u, (∀ c ∈ u, c ∈ s) ∧ v = String.ofList (trimChars u) := by
  unfold ofChars at h
  cases hs : s.dropWhile (· ≠ '=') with
  | nil =>
      simp only [hs] at h
      cases h
  | cons e u =>
      simp only [hs] at h
      refine ⟨u, fun c hc => ?_, (Option.some.inj h).symm⟩
      -- the value starts behind the first equals sign, and may hold others
      have hu : c ∈ s.dropWhile (· ≠ '=') := hs ▸ List.mem_cons_of_mem e hc
      exact (List.dropWhile_suffix _).subset hu

/-- The value of a component reads back if it is not empty. -/
theorem Component.isValue {s : List Char} {v : String} (hs : ';' ∉ s)
    (h : (ofChars s).value = some v) (hv : v ≠ "") : IsValue v := by
  obtain ⟨u, hu, rfl⟩ := exists_of_value h
  refine ⟨hv, ?_, ?_⟩
  · rw [String.toList_ofList]
    exact fun hmem => hs (hu _ (mem_of_mem_trimChars hmem))
  · unfold trim
    rw [String.toList_ofList, trimChars_trimChars]

/-- The values in the components of a text are values that read back, or empty. -/
theorem isValue_of_components {s : String} {c : Component} (hc : c ∈ components s) {v : String}
    (h : c.value = some v) (hv : v ≠ "") : IsValue v := by
  obtain ⟨piece, hpiece, rfl⟩ := List.mem_map.mp hc
  exact Component.isValue (not_mem_of_mem_splitOn _ hpiece) h hv

/-! ### What is read -/

namespace Found

/-- What the components read so far say is valid. -/
structure IsValid (f : Found) : Prop where
  root : ∀ r ∈ f.root, IsValue r.text
  parent : ∀ p ∈ f.parent, IsValue p

variable {f g : Found}

/-- What one more component may add. -/
theorem add_cases {c : Component} (h : f.add c = .ok g) :
    g = f ∨
      (∃ v, c.key = "root" ∧ c.value = some v ∧ v ≠ "" ∧ f.root = none ∧
        g = { f with root := some ⟨v⟩ }) ∨
      (∃ v, c.key = "parent" ∧ c.value = some v ∧ v ≠ "" ∧ g = { f with parent := some v }) ∨
      ∃ v, c.key = "sampled" ∧ c.value = some v ∧ g = { f with sampled := decision v } := by
  unfold add at h
  by_cases hroot : c.key = "root"
  · rw [if_pos hroot] at h
    cases hfound : f.root with
    | some r =>
        simp only [hfound] at h
        exact .inl (Except.ok.inj h).symm
    | none =>
        cases hvalue : c.value with
        | none =>
            simp only [hfound, hvalue] at h
            cases h
        | some v =>
            simp only [hfound, hvalue] at h
            split_ifs at h with hv
            exact .inr (.inl ⟨v, hroot, rfl, hv, rfl, (Except.ok.inj h).symm⟩)
  · rw [if_neg hroot] at h
    cases hvalue : c.value with
    | none =>
        simp only [hvalue] at h
        exact .inl (Except.ok.inj h).symm
    | some v =>
        simp only [hvalue] at h
        split_ifs at h with hparent hv hsampled
        · exact .inl (Except.ok.inj h).symm
        · exact .inr (.inr (.inl ⟨v, hparent, rfl, hv, (Except.ok.inj h).symm⟩))
        · exact .inr (.inr (.inr ⟨v, hsampled, rfl, (Except.ok.inj h).symm⟩))
        · exact .inl (Except.ok.inj h).symm

theorem add_root {v : String} (hv : v ≠ "") (hroot : f.root = none) :
    f.add ⟨"root", some v⟩ = .ok { f with root := some ⟨v⟩ } := by
  simp [add, hroot, hv]

theorem add_parent {v : String} (hv : v ≠ "") (f : Found) :
    f.add ⟨"parent", some v⟩ = .ok { f with parent := some v } := by
  simp [add, hv]

theorem add_sampled (v : String) (f : Found) :
    f.add ⟨"sampled", some v⟩ = .ok { f with sampled := decision v } := by
  simp [add]

/-- It stays valid with one more component. -/
theorem IsValid.step (hf : f.IsValid) {c : Component}
    (hc : ∀ v, c.value = some v → v ≠ "" → IsValue v) (h : f.add c = .ok g) : g.IsValid := by
  rcases add_cases h with rfl | ⟨v, -, hvalue, hv, -, rfl⟩ | ⟨v, -, hvalue, hv, rfl⟩ |
    ⟨v, -, -, rfl⟩
  · exact hf
  · exact ⟨by rintro _ ⟨⟩; exact hc v hvalue hv, hf.parent⟩
  · exact ⟨hf.root, by rintro _ ⟨⟩; exact hc v hvalue hv⟩
  · exact ⟨hf.root, hf.parent⟩

/-- Components whose values read back keep what is known valid. -/
theorem IsValid.foldlM : ∀ (cs : List Component) {f : Found}, f.IsValid →
    (∀ c ∈ cs, ∀ v, c.value = some v → v ≠ "" → IsValue v) →
    cs.foldlM Found.add f = .ok g → g.IsValid := by
  intro cs
  induction cs with
  | nil =>
      intro f hf _ h
      cases h
      exact hf
  | cons c cs ih =>
      intro f hf hcs h
      rw [List.foldlM_cons] at h
      cases hadd : f.add c with
      | error e =>
          rw [hadd] at h
          cases h
      | ok f' =>
          rw [hadd] at h
          exact ih (hf.step (hcs c List.mem_cons_self) hadd)
            (fun c' hc' => hcs c' (List.mem_cons_of_mem _ hc')) h

end Found

/-- A text is read when its components name a root; the header says what they say. -/
theorem parse_eq_ok {s : String} {h : Header} : parse s = .ok h ↔
    (components s).foldlM Found.add ⟨none, none, none⟩
      = .ok ⟨some h.root, h.parent, h.sampled⟩ := by
  unfold parse
  cases (components s).foldlM Found.add ⟨none, none, none⟩ with
  | error e => exact iff_of_false (by rintro ⟨⟩) (by rintro ⟨⟩)
  | ok found =>
      obtain ⟨root, parent, sampled⟩ := found
      cases root with
      | none => exact iff_of_false (by rintro ⟨⟩) (by rintro ⟨⟩)
      | some root =>
          obtain ⟨root', parent', sampled'⟩ := h
          constructor
          · rintro ⟨⟩
            rfl
          · rintro ⟨⟩
            rfl

/-- What is read is valid. -/
theorem isValid_of_parse {s : String} {h : Header} (hparse : parse s = .ok h) : h.IsValid := by
  have hnothing : Found.IsValid ⟨none, none, none⟩ := ⟨by rintro _ ⟨⟩, by rintro _ ⟨⟩⟩
  obtain ⟨hroot, hparent⟩ := hnothing.foldlM (components s)
    (fun _ hc _ => isValue_of_components hc) (parse_eq_ok.mp hparse)
  exact ⟨hroot _ rfl, hparent⟩

/-! ### Reading back -/

/-- The value that says a sampling decision. -/
def decisionText (b : Bool) : String := if b then "1" else "0"

@[simp] theorem decision_decisionText (b : Bool) : decision (decisionText b) = some b := by
  cases b <;> rfl

theorem isValue_decisionText (b : Bool) : IsValue (decisionText b) := by
  cases b <;> decide

/-- The texts of the components of a header. -/
def pieces (h : Header) : List (List Char) :=
  ("Root".toList ++ '=' :: h.root.text.toList) ::
    (h.parent.map fun p => "Parent".toList ++ '=' :: p.toList).toList ++
    (h.sampled.map fun b => "Sampled".toList ++ '=' :: (decisionText b).toList).toList

/-- The components of a header. -/
def fields (h : Header) : List Component :=
  ⟨"root", some h.root.text⟩ :: (h.parent.map fun p => ⟨"parent", some p⟩).toList ++
    (h.sampled.map fun b => ⟨"sampled", some (decisionText b)⟩).toList

/-- The text of a header is made of its pieces, with semicolons between them. -/
theorem toList_render (h : Header) : h.render.toList = [';'].intercalate h.pieces := by
  obtain ⟨root, parent, sampled⟩ := h
  unfold render pieces
  rcases parent with _ | parent <;> rcases sampled with _ | _ | _ <;>
    simp [List.intercalate, String.toList_append, decisionText]

/-- A piece without an equals sign is a key. -/
theorem Component.ofChars_bare {key : List Char} (hkey : '=' ∉ key) :
    ofChars key = ⟨String.ofList ((trimChars key).map Char.toLower), none⟩ := by
  have hpos : ∀ c ∈ key, decide (c ≠ '=') = true :=
    fun c hc => decide_eq_true fun h => hkey (h ▸ hc)
  unfold ofChars
  rw [List.takeWhile_eq_self_iff.mpr hpos, List.dropWhile_eq_nil_iff.mpr hpos]

/-- The first equals sign separates a key and a value. -/
theorem Component.ofChars_pair {key : List Char} (hkey : '=' ∉ key) (value : List Char) :
    ofChars (key ++ '=' :: value) = ⟨String.ofList ((trimChars key).map Char.toLower),
      some (String.ofList (trimChars value))⟩ := by
  have hpos : ∀ c ∈ key, decide (c ≠ '=') = true :=
    fun c hc => decide_eq_true fun h => hkey (h ▸ hc)
  unfold ofChars
  rw [List.takeWhile_append_of_pos hpos, List.dropWhile_append_of_pos hpos]
  simp

/-- The component of a key and a value that reads back. -/
theorem Component.ofChars_field {key : List Char} {value : String} (hkey : '=' ∉ key)
    (hvalue : IsValue value) : ofChars (key ++ '=' :: value.toList)
      = ⟨String.ofList ((trimChars key).map Char.toLower), some value⟩ := by
  have htrim : String.ofList (trimChars value.toList) = value := hvalue.2.2
  rw [ofChars_pair hkey, htrim]

section

variable {h : Header} (hvalid : h.IsValid)

include hvalid in
/-- No piece of a valid header holds a semicolon. -/
theorem not_mem_of_mem_pieces {piece : List Char} (hpiece : piece ∈ h.pieces) : ';' ∉ piece := by
  obtain ⟨hroot, hparent⟩ := hvalid
  simp only [pieces, List.cons_append, List.mem_cons, List.mem_append, Option.mem_toList,
    Option.map_eq_some_iff] at hpiece
  rcases hpiece with rfl | ⟨p, hp, rfl⟩ | ⟨b, -, rfl⟩
  · simpa using hroot.2.1
  · simpa using (hparent p hp).2.1
  · simpa using (isValue_decisionText b).2.1

include hvalid in
/-- The text of a valid header has the components of the header. -/
theorem components_render : components h.render = h.fields := by
  obtain ⟨hroot, hparent⟩ := hvalid
  unfold components
  rw [toList_render, List.splitOn_intercalate ';' (fun _ => not_mem_of_mem_pieces ⟨hroot, hparent⟩)
    (List.cons_ne_nil _ _)]
  have hfirst : Component.ofChars ("Root".toList ++ '=' :: h.root.text.toList)
      = ⟨"root", some h.root.text⟩ := Component.ofChars_field (by decide) hroot
  have hsecond : ∀ p ∈ h.parent, Component.ofChars ("Parent".toList ++ '=' :: p.toList)
      = ⟨"parent", some p⟩ := fun p hp => Component.ofChars_field (by decide) (hparent p hp)
  have hthird : ∀ b, Component.ofChars ("Sampled".toList ++ '=' :: (decisionText b).toList)
      = ⟨"sampled", some (decisionText b)⟩ :=
    fun b => Component.ofChars_field (by decide) (isValue_decisionText b)
  unfold pieces fields
  rw [List.map_append, List.map_cons, hfirst]
  congr 2
  · cases hp : h.parent with
    | none => rfl
    | some p => exact congrArg (fun c => [c]) (hsecond p hp)
  · cases h.sampled with
    | none => rfl
    | some b => exact congrArg (fun c => [c]) (hthird b)

include hvalid in
/-- The components of a valid header say what the header says. -/
theorem foldlM_fields :
    h.fields.foldlM Found.add ⟨none, none, none⟩ = .ok ⟨some h.root, h.parent, h.sampled⟩ := by
  obtain ⟨hroot, hparent⟩ := hvalid
  have hfirst : Found.add ⟨none, none, none⟩ ⟨"root", some h.root.text⟩
      = .ok ⟨some h.root, none, none⟩ := Found.add_root hroot.1 rfl
  have hsecond : (h.parent.map fun p => Component.mk "parent" (some p)).toList.foldlM Found.add
      ⟨some h.root, none, none⟩ = .ok ⟨some h.root, h.parent, none⟩ := by
    cases hp : h.parent with
    | none => rfl
    | some p => exact congrArg (· >>= pure) (Found.add_parent (hparent p hp).1 _)
  have hthird : (h.sampled.map fun b =>
        Component.mk "sampled" (some (decisionText b))).toList.foldlM Found.add
      ⟨some h.root, h.parent, none⟩ = .ok ⟨some h.root, h.parent, h.sampled⟩ := by
    cases h.sampled with
    | none => rfl
    | some b =>
        have hadd := Found.add_sampled (decisionText b) ⟨some h.root, h.parent, none⟩
        rw [decision_decisionText] at hadd
        exact congrArg (· >>= pure) hadd
  -- every component is added to what is known from those before it
  unfold fields
  rw [List.foldlM_append, List.foldlM_cons, hfirst]
  exact (congrArg (· >>= fun f => List.foldlM Found.add f _) hsecond).trans hthird

end

/-- Valid headers read back. -/
theorem parse_render {h : Header} (hvalid : h.IsValid) : parse h.render = .ok h := by
  rw [parse_eq_ok, components_render hvalid, foldlM_fields hvalid]

/-- The headers whose text reads back are the valid ones, and so is every header that is read, so
that rendering it again and reading that changes nothing any more. -/
theorem codec :
    (∀ v, IsValue v ↔ v ≠ "" ∧ ';' ∉ v.toList ∧
      (∀ c ∈ v.toList.head?, isBlankChar c = false) ∧
        ∀ c ∈ v.toList.getLast?, isBlankChar c = false) ∧
      (∀ h : Header, parse h.render = .ok h ↔ h.IsValid) ∧
      ∀ s h, parse s = .ok h →
        h.IsValid ∧ parse h.render = .ok h ∧ (parse h.render).map render = .ok h.render := by
  refine ⟨fun v => isValue_iff, fun h => ⟨isValid_of_parse, parse_render⟩, fun s h hparse => ?_⟩
  have hback := parse_render (isValid_of_parse hparse)
  exact ⟨isValid_of_parse hparse, hback, congrArg (Except.map render) hback⟩

/-- A text with repeated, unknown and empty components, the header that it is read as, and the text
that this is written as and read from again. -/
theorem codec_sample :
    parse " sampled = 1 ;Self; ROOT=1-a=b;Root=1-c;parent= 5f 84 ;Parent="
        = .ok ⟨⟨"1-a=b"⟩, some "5f 84", some true⟩ ∧
      IsValid ⟨⟨"1-a=b"⟩, some "5f 84", some true⟩ ∧
      parse "Root=1-a=b;Parent=5f 84;Sampled=1" = .ok ⟨⟨"1-a=b"⟩, some "5f 84", some true⟩ := by
  have hparse : parse " sampled = 1 ;Self; ROOT=1-a=b;Root=1-c;parent= 5f 84 ;Parent="
      = .ok ⟨⟨"1-a=b"⟩, some "5f 84", some true⟩ := rfl
  obtain ⟨hvalid, hback, -⟩ := codec.2.2 _ _ hparse
  exact ⟨hparse, hvalid, hback⟩

end CausalTrace.Header
