import CausalTrace.Json.Printer
import CausalTrace.Json.Text
import Mathlib.Data.List.Basic
import Mathlib.Data.List.TakeWhile
import Mathlib.Tactic.SplitIfs

/-!
# Literals are scanned as they were written

A string is written with escapes, and a numeral in one of several layouts.  Both are found again at
the start of a longer text: a string before anything, a numeral before what cannot be part of it.

## Main definitions

* `Json.Stops` — a text that does not go on with a numeral
* `Json.Number.ReadsBack` — the text of a number is a numeral that denotes it

## Main statements

* `Json.scanString_quoted` — a written string
* `Json.scanNumeral_append` — a numeral before a text that stops it
* `Json.Number.readsBack_int` — the integers that 64 bits hold read back
-/

namespace CausalTrace.Json

/-! ### Strings -/

/-- The piece that an escaped character is scanned into. -/
def piece (c : Char) : Piece :=
  if c.toNat < 0x20 ∧ c.toNat ∉ [0x8, 0x9, 0xA, 0xC, 0xD] then .unit c.toNat else .char c

theorem hexValue?_hexDigit : ∀ n < 16, hexValue? (hexDigit n) = some n := by decide

theorem scanString_char {c : Char} (hquote : c ≠ '"') (hescape : c ≠ '\\')
    (hcontrol : 0x20 ≤ c.toNat) (rest : List Char) :
    scanString (c :: rest) = (.char c :: (scanString rest).1, (scanString rest).2) := by
  rw [scanString.eq_def]
  split
  all_goals simp_all

/-- The escape of a control character in hexadecimal digits. -/
theorem unit?_hexDigit {n : Nat} (h : n < 0x20) :
    unit? '0' '0' (hexDigit (n / 16)) (hexDigit (n % 16)) = some n := by
  have hhigh := hexValue?_hexDigit (n / 16) (by omega)
  have hlow := hexValue?_hexDigit (n % 16) (by omega)
  have hzero : hexValue? '0' = some 0 := rfl
  have hsum : 16 * (n / 16) + n % 16 = n := Nat.div_add_mod n 16
  simp [unit?, hhigh, hlow, hzero, hsum]

/-- A written character is scanned into its piece. -/
theorem scanString_escape (c : Char) (rest : List Char) :
    scanString (escape c ++ rest)
      = (piece c :: (scanString rest).1, (scanString rest).2) := by
  have hchar : ∀ {n : Nat}, c.toNat = n → c = Char.ofNat n := by
    rintro n rfl
    exact (Char.ofNat_toNat c).symm
  unfold escape
  split_ifs with hquote hescape hback htab hline hform hreturn hcontrol
  · subst hquote
    simp [scanString, escaped?, piece]
  · subst hescape
    simp [scanString, escaped?, piece]
  · obtain rfl := hchar hback
    simp [scanString, escaped?, piece]
  · obtain rfl := hchar htab
    simp [scanString, escaped?, piece]
  · obtain rfl := hchar hline
    simp [scanString, escaped?, piece]
  · obtain rfl := hchar hform
    simp [scanString, escaped?, piece]
  · obtain rfl := hchar hreturn
    simp [scanString, escaped?, piece]
  · simp [scanString, unit?_hexDigit hcontrol, piece, hcontrol, hback, htab, hline, hform, hreturn]
  · simp [scanString_char hquote hescape (Nat.le_of_not_lt hcontrol), piece, hcontrol]

theorem pair?_piece (c : Char) (rest : List Piece) :
    pair? (piece c :: rest) = (pair? rest).map (c :: ·) := by
  unfold piece
  split_ifs with h
  · have hleading : isLeading c.toNat = false := by
      simp [isLeading]
      omega
    have htrailing : isTrailing c.toNat = false := by
      simp [isTrailing]
      omega
    rw [pair?.eq_def]
    simp [hleading, htrailing]
  · rfl

/-- A written string is scanned up to its quotation mark. -/
theorem scanString_quoted (s rest : List Char) :
    scanString (s.flatMap escape ++ '"' :: rest) = (s.map piece, .closed rest) := by
  induction s with
  | nil => simp [scanString]
  | cons c s ih => rw [List.flatMap_cons, List.append_assoc, scanString_escape, ih, List.map_cons]

/-- The pieces of a written string are its characters. -/
theorem pair?_map_piece (s : List Char) : pair? (s.map piece) = some s := by
  induction s with
  | nil => rfl
  | cons c s ih => rw [List.map_cons, pair?_piece, ih, Option.map_some]

/-! ### Numerals -/

/-- A text that does not go on with a numeral: it starts with none of its characters. -/
def Stops (s : List Char) : Prop :=
  ∀ c ∈ s.head?, c.isDigit = false ∧ c ≠ '.' ∧ c ≠ 'e' ∧ c ≠ 'E'

/-- Digits end before what stops a numeral. -/
theorem digits_append {s tail : List Char} (h : Stops tail) : digits (s ++ tail) = digits s := by
  unfold digits
  congr 1
  induction s with
  | nil =>
      cases tail with
      | nil => rfl
      | cons c rest => simp [(h c rfl).1]
  | cons c s ih => simp [List.takeWhile_cons, ih]

theorem afterDigits_append {s tail : List Char} (h : Stops tail) :
    afterDigits (s ++ tail) = afterDigits s ++ tail := by
  unfold afterDigits
  induction s with
  | nil =>
      cases tail with
      | nil => rfl
      | cons c rest => simp [(h c rfl).1]
  | cons c s ih =>
      rw [List.cons_append, List.dropWhile_cons, List.dropWhile_cons, ih]
      split <;> rfl

section

variable {negative minus : Bool} {whole : List Nat} {fraction : Option (List Nat)}
  {s rest tail : List Char} {n : Numeral}

/-- A numeral from behind the sign of its exponent on, where a digit must be. -/
def scanSigned (negative : Bool) (whole : List Nat) (fraction : Option (List Nat)) (minus : Bool)
    (s : List Char) : NumeralScan :=
  if (digits s).isEmpty then .missing s.head?
  else .found ⟨negative, whole, fraction, some (minus, digits s)⟩ (afterDigits s)

theorem scanSigned_append (htail : Stops tail)
    (h : scanSigned negative whole fraction minus s = .found n rest) :
    scanSigned negative whole fraction minus (s ++ tail) = .found n (rest ++ tail) := by
  unfold scanSigned at h ⊢
  rw [digits_append htail, afterDigits_append htail]
  split_ifs at h ⊢
  cases h
  rfl

theorem scanExponent_append (htail : Stops tail)
    (h : scanExponent negative whole fraction s = .found n rest) :
    scanExponent negative whole fraction (s ++ tail) = .found n (rest ++ tail) := by
  cases s with
  | nil =>
      cases h
      cases tail with
      | nil => rfl
      | cons c _ =>
          obtain ⟨-, -, he, hE⟩ := htail c rfl
          simp [scanExponent, he, hE]
  | cons c s =>
      rw [List.cons_append]
      unfold scanExponent at h ⊢
      dsimp only at h ⊢
      split at h
      next hmark =>
        rw [if_pos hmark]
        -- a sign, the first digit or, against `h`, nothing comes behind the mark
        cases s with
        | nil => simp [digits] at h
        | cons d s =>
            rw [List.cons_append]
            split at h
            next heq =>
              obtain ⟨rfl, rfl⟩ := List.cons.inj heq
              exact scanSigned_append htail h
            next heq =>
              obtain ⟨rfl, rfl⟩ := List.cons.inj heq
              exact scanSigned_append htail h
            next hplus hminus =>
              split
              next heq => exact absurd (List.cons.inj heq).1 fun hd => hplus s (hd ▸ rfl)
              next heq => exact absurd (List.cons.inj heq).1 fun hd => hminus s (hd ▸ rfl)
              next => exact scanSigned_append htail h
      next hmark =>
        rw [if_neg hmark]
        cases h
        rfl

theorem scanFraction_append (htail : Stops tail)
    (h : scanFraction negative whole s = .found n rest) :
    scanFraction negative whole (s ++ tail) = .found n (rest ++ tail) := by
  cases s with
  | nil =>
      rw [List.nil_append]
      unfold scanFraction at h ⊢
      split
      next => exact absurd rfl (htail '.' rfl).2.1
      next => exact scanExponent_append htail h
  | cons c s =>
      rw [List.cons_append]
      unfold scanFraction at h ⊢
      split at h
      next r heq =>
        obtain ⟨rfl, rfl⟩ := List.cons.inj heq
        change (if (digits (s ++ tail)).isEmpty then _ else _) = _
        rw [digits_append htail, afterDigits_append htail]
        split_ifs at h ⊢
        exact scanExponent_append htail h
      next hpoint =>
        split
        next heq => exact absurd (List.cons.inj heq).1 fun hc => hpoint s (hc ▸ rfl)
        next => exact scanExponent_append htail h

/-- No digit follows a leading zero. -/
theorem scanMagnitude_zero (negative : Bool) (s : List Char) :
    scanMagnitude negative ('0' :: s)
      = if (digits s).isEmpty then scanFraction negative [0] s else .missing s.head? := by
  cases s with
  | nil => rfl
  | cons c s => cases hc : c.isDigit <;> simp [scanMagnitude, digits, hc]

theorem scanMagnitude_append (htail : Stops tail)
    (h : scanMagnitude negative s = .found n rest) :
    scanMagnitude negative (s ++ tail) = .found n (rest ++ tail) := by
  cases s with
  | nil => simp [scanMagnitude, digits] at h
  | cons c s =>
      rw [List.cons_append]
      by_cases hc : c = '0'
      · subst hc
        rw [scanMagnitude_zero] at h ⊢
        rw [digits_append htail]
        split_ifs at h ⊢
        exact scanFraction_append htail h
      · unfold scanMagnitude at h ⊢
        split at h
        next heq => exact absurd (List.cons.inj heq).1 hc
        next =>
          split
          next heq => exact absurd (List.cons.inj heq).1 hc
          next =>
            rw [← List.cons_append, digits_append htail, afterDigits_append htail]
            split_ifs at h ⊢
            exact scanFraction_append htail h

/-- What stops a numeral does not change what is found. -/
theorem scanNumeral_append (htail : Stops tail) (h : scanNumeral s = .found n rest) :
    scanNumeral (s ++ tail) = .found n (rest ++ tail) := by
  cases s with
  | nil => simp [scanNumeral, scanMagnitude, digits] at h
  | cons c s =>
      rw [List.cons_append]
      unfold scanNumeral at h ⊢
      split at h
      next r heq =>
        obtain ⟨rfl, rfl⟩ := List.cons.inj heq
        exact scanMagnitude_append htail h
      next hminus =>
        split
        next heq => exact absurd (List.cons.inj heq).1 fun hc => hminus s (hc ▸ rfl)
        next => exact scanMagnitude_append htail h

/-- A numeral starts with a sign or a digit. -/
theorem exists_of_scanNumeral (h : scanNumeral s = .found n rest) :
    ∃ c r, s = c :: r ∧ (c = '-' ∨ c.isDigit = true) := by
  cases s with
  | nil => simp [scanNumeral, scanMagnitude, digits] at h
  | cons c r =>
      refine ⟨c, r, rfl, ?_⟩
      by_cases hminus : c = '-'
      · exact .inl hminus
      · cases hdigit : c.isDigit with
        | true => exact .inr rfl
        | false =>
            have hzero : c ≠ '0' := by
              rintro rfl
              cases hdigit
            simp [scanNumeral, scanMagnitude, digits, hminus, hzero, hdigit] at h

end

/-! ### Numbers -/

/-- The text of a number is a numeral, and denotes the number. -/
def Number.ReadsBack (n : Number) : Prop :=
  ∃ m, scanNumeral n.text.toList = .found m [] ∧ m.value? = some n

theorem isDigit_of_mem_toDigits {n : Nat} {c : Char} (h : c ∈ Nat.toDigits 10 n) :
    c.isDigit = true := Nat.isDigit_of_mem_toDigits (by decide) (by decide) h

theorem digitChar_ne_zero : ∀ n < 10, 0 < n → n.digitChar ≠ '0' := by decide

/-- Only the decimal digits of zero start with a zero. -/
theorem head_toDigits {n : Nat} (hn : 0 < n) : ∀ c ∈ (Nat.toDigits 10 n).head?, c ≠ '0' := by
  induction n using Nat.strongRecOn with
  | _ n ih =>
      by_cases hlt : n < 10
      · rw [Nat.toDigits_of_lt_base hlt]
        rintro _ ⟨⟩
        exact digitChar_ne_zero n hlt hn
      · rw [Nat.toDigits_of_base_le (by decide) (Nat.le_of_not_lt hlt),
          List.head?_append_of_ne_nil _ Nat.toDigits_ne_nil]
        exact ih (n / 10) (by omega) (by omega)

/-- The decimal digits of a number are a whole numeral. -/
theorem scanMagnitude_toDigits (negative : Bool) (n : Nat) :
    scanMagnitude negative (Nat.toDigits 10 n)
      = .found ⟨negative, (Nat.toDigits 10 n).map digitValue, none, none⟩ [] := by
  have hdigits : digits (Nat.toDigits 10 n) = (Nat.toDigits 10 n).map digitValue :=
    congrArg (List.map digitValue)
      (List.takeWhile_eq_self_iff.mpr fun _ => isDigit_of_mem_toDigits)
  have hafter : afterDigits (Nat.toDigits 10 n) = [] :=
    List.dropWhile_eq_nil_iff.mpr fun _ => isDigit_of_mem_toDigits
  rcases Nat.eq_zero_or_pos n with rfl | hn
  · rfl
  · have hhead := head_toDigits hn
    cases hs : Nat.toDigits 10 n with
    | nil => exact absurd hs Nat.toDigits_ne_nil
    | cons c s =>
        rw [hs] at hdigits hafter hhead
        have hzero : c ≠ '0' := hhead c rfl
        simp [scanMagnitude, hzero, hdigits, hafter, scanFraction, scanExponent]

theorem le_ofDigitChars (l : List Char) (s : Nat) : s ≤ Nat.ofDigitChars 10 l s := by
  induction l generalizing s with
  | nil => exact Nat.le_refl s
  | cons c l ih =>
      rw [Nat.ofDigitChars_cons]
      exact Nat.le_trans (by omega) (ih _)

/-- Digits all fit when their number does. -/
theorem addWhole_eq {l : List Char} {s : Nat} (h : Nat.ofDigitChars 10 l s < Numeral.limit) :
    Numeral.addWhole s (l.map digitValue) = ⟨Nat.ofDigitChars 10 l s, 0⟩ := by
  induction l generalizing s with
  | nil => rfl
  | cons c l ih =>
      rw [Nat.ofDigitChars_cons] at h ⊢
      have hfits : 10 * s + digitValue c < Numeral.limit :=
        Nat.lt_of_le_of_lt (le_ofDigitChars l _) h
      rw [List.map_cons, Numeral.addWhole, Numeral.append?]
      simp only [hfits, if_true]
      exact ih h

/-- Digits denote the integer they are those of, if its magnitude fits in 64 bits. -/
theorem integer?_toDigits {n : Nat} (h : n < Numeral.limit) (negative : Bool) :
    (Numeral.mk negative ((Nat.toDigits 10 n).map digitValue) none none).integer?
      = if negative then if 0 < n && n ≤ 0x8000000000000000 then some (-(n : Int)) else none
        else some (n : Int) := by
  have hvalue : Nat.ofDigitChars 10 (Nat.toDigits 10 n) 0 = n :=
    Nat.ofDigitChars_toDigits (by decide) (by decide)
  have hwhole := addWhole_eq (l := Nat.toDigits 10 n) (s := 0) (by rwa [hvalue])
  rw [hvalue] at hwhole
  simp [Numeral.integer?, hwhole]

theorem Number.toList_text_nat (n : Nat) :
    (Number.int n).text.toList = Nat.toDigits 10 n := by
  simp [Number.text, Int.toString_eq_repr, Int.repr_eq_if, Nat.repr_eq_ofList_toDigits]

theorem Number.toList_text_neg {n : Nat} (hn : 0 < n) :
    (Number.int (-n)).text.toList = '-' :: Nat.toDigits 10 n := by
  simp [Number.text, Int.toString_eq_repr, Int.repr_eq_if, Nat.ne_of_gt hn,
    Nat.repr_eq_ofList_toDigits]

/-- Digits are a numeral without a sign. -/
theorem scanNumeral_toDigits (n : Nat) :
    scanNumeral (Nat.toDigits 10 n) = scanMagnitude false (Nat.toDigits 10 n) := by
  unfold scanNumeral
  split
  next rest heq =>
    have hminus : '-' ∈ Nat.toDigits 10 n := heq ▸ List.mem_cons_self
    cases isDigit_of_mem_toDigits hminus
  next => rfl

/-- The integers that 64 bits hold read back. -/
theorem Number.readsBack_int {i : Int} (hmin : -0x8000000000000000 ≤ i)
    (hmax : i < 0x10000000000000000) : (Number.int i).ReadsBack := by
  rcases Int.lt_or_le i 0 with hneg | hpos
  · obtain ⟨n, rfl⟩ : ∃ n : Nat, i = -n := ⟨i.natAbs, by omega⟩
    have hn : 0 < n := by omega
    have hbound : n ≤ 0x8000000000000000 := by omega
    have hlimit : n < Numeral.limit := by
      unfold Numeral.limit
      omega
    refine ⟨⟨true, (Nat.toDigits 10 n).map digitValue, none, none⟩, ?_, ?_⟩
    · rw [toList_text_neg hn]
      exact scanMagnitude_toDigits true n
    · simp [Numeral.value?, integer?_toDigits hlimit, hn, hbound]
  · obtain ⟨n, rfl⟩ := Int.eq_ofNat_of_zero_le hpos
    have hlimit : n < Numeral.limit := by
      unfold Numeral.limit
      omega
    refine ⟨⟨false, (Nat.toDigits 10 n).map digitValue, none, none⟩, ?_, ?_⟩
    · rw [toList_text_nat, scanNumeral_toDigits]
      exact scanMagnitude_toDigits false n
    · simp [Numeral.value?, integer?_toDigits hlimit]

end CausalTrace.Json
