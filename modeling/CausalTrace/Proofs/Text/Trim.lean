import CausalTrace.Text.Blank
import Mathlib.Data.List.DropRight

/-!
# Trimming

Trimming takes white space away at the ends of a text and nothing else, so that trimmed texts are
those that neither start nor end with it.

## Main statements

* `Text.trimChars_eq_self_iff` — what trimming leaves alone
* `Text.trimChars_trimChars` — trimming twice
-/

namespace CausalTrace.Text

variable {s : List Char}

theorem trimStart_suffix (s : List Char) : trimStart s <:+ s := List.dropWhile_suffix _

theorem trimEnd_isPrefix (s : List Char) : trimEnd s <+: s := List.rdropWhile_prefix _ s

/-- Trimming adds nothing. -/
theorem mem_of_mem_trimChars {c : Char} (h : c ∈ trimChars s) : c ∈ s :=
  (trimStart_suffix s).subset ((trimEnd_isPrefix _).subset h)

/-- Trimming the start leaves alone what does not begin with white space. -/
theorem trimStart_eq_self_iff : trimStart s = s ↔ ∀ c ∈ s.head?, isBlankChar c = false := by
  unfold trimStart
  rw [List.dropWhile_eq_self_iff]
  cases s <;> simp

/-- Trimming the end leaves alone what does not end with white space. -/
theorem trimEnd_eq_self_iff : trimEnd s = s ↔ ∀ c ∈ s.getLast?, isBlankChar c = false := by
  unfold trimEnd
  rw [List.reverse_eq_iff, trimStart_eq_self_iff, List.head?_reverse]

theorem head?_trimStart (s : List Char) : ∀ c ∈ (trimStart s).head?, isBlankChar c = false :=
  trimStart_eq_self_iff.mp (List.dropWhile_idempotent _ s)

/-- Trimming the end brings no white space to the start. -/
theorem head?_trimEnd (h : ∀ c ∈ s.head?, isBlankChar c = false) :
    ∀ c ∈ (trimEnd s).head?, isBlankChar c = false := by
  obtain ⟨rest, hs⟩ := trimEnd_isPrefix s
  cases htrim : trimEnd s with
  | nil => simp
  | cons d front =>
      rw [htrim] at hs
      subst hs
      exact h

theorem head?_trimChars (s : List Char) : ∀ c ∈ (trimChars s).head?, isBlankChar c = false :=
  head?_trimEnd (head?_trimStart s)

theorem getLast?_trimChars (s : List Char) :
    ∀ c ∈ (trimChars s).getLast?, isBlankChar c = false :=
  trimEnd_eq_self_iff.mp (List.rdropWhile_idempotent _ (trimStart s))

/-- Trimming leaves alone what neither starts nor ends with white space. -/
theorem trimChars_of_ends (hfirst : ∀ c ∈ s.head?, isBlankChar c = false)
    (hlast : ∀ c ∈ s.getLast?, isBlankChar c = false) : trimChars s = s := by
  unfold trimChars
  rw [trimStart_eq_self_iff.mpr hfirst, trimEnd_eq_self_iff.mpr hlast]

/-- Trimming leaves alone just what has no white space at either end. -/
theorem trimChars_eq_self_iff : trimChars s = s ↔
    (∀ c ∈ s.head?, isBlankChar c = false) ∧ ∀ c ∈ s.getLast?, isBlankChar c = false := by
  refine ⟨fun h => ⟨?_, ?_⟩, fun h => trimChars_of_ends h.1 h.2⟩
  · have hfirst := head?_trimChars s
    rwa [h] at hfirst
  · have hlast := getLast?_trimChars s
    rwa [h] at hlast

/-- Trimming twice comes to the same as trimming once. -/
@[simp] theorem trimChars_trimChars (s : List Char) : trimChars (trimChars s) = trimChars s :=
  trimChars_of_ends (head?_trimChars s) (getLast?_trimChars s)

/-- Trimming leaves alone just the texts that neither start nor end with white space. -/
theorem trim_eq_self_iff {s : String} : trim s = s ↔
    (∀ c ∈ s.toList.head?, isBlankChar c = false) ∧
      ∀ c ∈ s.toList.getLast?, isBlankChar c = false := by
  unfold trim
  rw [← String.toList_inj, String.toList_ofList, trimChars_eq_self_iff]

/-- Nothing is left of a text that is blank, and of no other. -/
theorem trimChars_eq_nil_iff : trimChars s = [] ↔ ∀ c ∈ s, isBlankChar c = true := by
  unfold trimChars trimEnd trimStart
  rw [List.reverse_eq_nil_iff, List.dropWhile_eq_nil_iff]
  simp only [List.mem_reverse]
  constructor
  · intro h
    -- a character that is dropped at the start is white space, any other is one of these
    rw [← List.takeWhile_append_dropWhile (p := isBlankChar) (l := s), List.forall_mem_append]
    exact ⟨fun c hc => List.mem_takeWhile_imp hc, h⟩
  · exact fun h c hc => h c ((List.dropWhile_suffix _).subset hc)

/-- What is trimmed is blank only if it is empty. -/
theorem isBlank_trimChars (s : List Char) :
    isBlank (String.ofList (trimChars s)) = true ↔ String.ofList (trimChars s) = "" := by
  have hempty : String.ofList (trimChars s) = "" ↔ trimChars s = [] := by
    rw [← String.toList_inj, String.toList_ofList, String.toList_empty]
  rw [hempty, ← trimChars_trimChars, trimChars_eq_nil_iff]
  simp [isBlank]

end CausalTrace.Text
