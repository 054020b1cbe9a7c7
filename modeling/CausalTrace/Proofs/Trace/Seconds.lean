import CausalTrace.Trace.Timestamp
import Mathlib

/-!
# Timestamps in seconds are numbers

The seconds of a timestamp are a quotient of doubles, which could be an infinity or no number at
all.  They never are, because 64 bits of nanoseconds are far from the largest double: so a timestamp
is always written as a number.

## Main definitions

* `Timestamp.IsBelow` — a finite unpacked double with a bound on its exponent

## Main statements

* `Timestamp.isFinite_seconds` — the seconds of a timestamp are a finite number

## Design notes

Every operation on doubles unpacks its arguments, computes with mantissa and exponent and packs the
result.  A bound on the exponent goes through all of this; it may be generous, because it starts out
at zero and there is room up to 971.
-/

namespace CausalTrace.Timestamp

open Float.Model Float.Model.UnpackedFloat

/-- The number is finite, and its exponent is not above a bound. -/
def IsBelow (k : Int) : UnpackedFloat → Prop
  | .zero _ => True
  | .finite _ _ e _ => e ≤ k
  | _ => False

theorem IsBelow.mono {k l : Int} {u : UnpackedFloat} (h : IsBelow k u) (hkl : k ≤ l) :
    IsBelow l u := by
  cases u with
  | infinity | notANumber => exact h
  | zero => trivial
  | finite => exact Int.le_trans h hkl

theorem IsBelow.isFinite {k : Int} {u : UnpackedFloat} (h : IsBelow k u) : u.isFinite = true := by
  cases u with
  | infinity | notANumber => exact h.elim
  | zero | finite => rfl

/-! ### Rounding -/

theorem targetExponent_eq (e : Int) :
    Format.targetExponent .binary64 e = max (e - 53) (-1074) := rfl

theorem log2_le_of_lt {m bits : Nat} (h : m < 2 ^ bits) : m.log2 ≤ bits := by
  by_cases hm : m = 0
  · simp [hm]
  · exact Nat.le_of_lt ((Nat.log2_lt hm).mpr h)

theorem mantissa_shiftRight (em : ExtendedMantissa) (n : Nat) :
    (em >>> n).mantissa ≤ em.mantissa := by
  induction n with
  | zero => exact Nat.le_refl _
  | succ n ih => exact Nat.le_trans (Nat.div_le_self _ 2) ih

/-- Rounding raises a mantissa by at most one. -/
theorem roundedMantissa_le (em : ExtendedMantissa) : em.roundedMantissa ≤ em.mantissa + 1 := by
  obtain ⟨m, round, sticky⟩ := em
  cases round <;> cases sticky <;>
    simp only [ExtendedMantissa.roundedMantissa, ExtendedMantissa.accuracy,
      Accuracy.roundToNearestEven] <;> omega

theorem mantissa_ofMantissaAndAccuracy (m : Nat) (a : Accuracy) :
    (ExtendedMantissa.ofMantissaAndAccuracy m a).mantissa = m := by
  cases a with
  | exact => rfl
  | inexact o => cases o <;> rfl

/-- A shift to the target exponent leaves the mantissa as it is or smaller, and raises the exponent
by no more than the mantissa has bits. -/
theorem shiftToTargetExponent_le {m bits : Nat} {e k : Int} (hm : m < 2 ^ bits) (he : e ≤ k)
    (hk : -1074 ≤ k) (a : Accuracy) :
    (shiftToTargetExponent .binary64 m e a).1.mantissa ≤ m ∧
      (shiftToTargetExponent .binary64 m e a).2 ≤ k + bits := by
  refine ⟨(mantissa_shiftRight _ _).trans_eq (mantissa_ofMantissaAndAccuracy m a), ?_⟩
  have hbits := log2_le_of_lt hm
  unfold shiftToTargetExponent shiftToExponent totalExponent
  rw [targetExponent_eq]
  dsimp only
  omega

/-- Rounding raises the exponent by no more than twice the bits of the mantissa. -/
theorem isBelow_roundWithAccuracy {m bits : Nat} {e k : Int} (hm : m < 2 ^ bits) (he : e ≤ k)
    (hk : -1074 ≤ k) (sign : Sign) (a : Accuracy) :
    IsBelow (k + 2 * bits + 1) (roundWithAccuracy .binary64 sign m e a) := by
  obtain ⟨hmantissa, hexponent⟩ := shiftToTargetExponent_le hm he hk a
  have hrounded := roundedMantissa_le (shiftToTargetExponent .binary64 m e a).1
  have hmore : (shiftToTargetExponent .binary64 m e a).1.roundedMantissa < 2 ^ (bits + 1) := by
    have := Nat.one_le_two_pow (n := bits)
    rw [Nat.pow_succ]
    omega
  have hfinal := (shiftToTargetExponent_le hmore hexponent (by omega) .exact).2
  unfold roundWithAccuracy
  dsimp only
  split
  · trivial
  · simp only [IsBelow]
    push_cast at hfinal
    omega

/-! ### Packing -/

/-- A packed exponent that is not all ones is that of a finite number. -/
theorem isBelow_unpack {b : BitVec Format.binary64.numBits} {k : Int}
    (hones : unpackExponent b ≠ -1#11) (hk : ((unpackExponent b).toNat : Int) - 1075 ≤ k)
    (hlow : -1074 ≤ k) : IsBelow k (unpack .binary64 b) := by
  have hbias : Format.exponentBias .binary64 = 1023 := rfl
  unfold UnpackedFloat.unpack
  dsimp only
  rw [if_neg hones]
  split
  next hzero =>
    split
    · trivial
    · simp only [IsBelow, hzero, hbias]
      simpa using hlow
  next =>
    simp only [IsBelow, hbias]
    omega

/-- A number whose exponent is not above 971 is still finite after it was packed. -/
theorem isBelow_unpack_pack {u : UnpackedFloat} {k : Int} (h : IsBelow k u) (hlow : -1074 ≤ k)
    (hhigh : k ≤ 971) :
    IsBelow k (UnpackedFloat.unpack .binary64 (UnpackedFloat.pack .binary64 u)) := by
  have hbias : Format.exponentBias .binary64 = 1023 := rfl
  have hzero : ∀ (sign : Sign) (mantissa : BitVec 52),
      IsBelow k (UnpackedFloat.unpack .binary64 (packComponents .binary64 sign 0#11 mantissa)) := by
    intro sign mantissa
    refine isBelow_unpack ?_ ?_ hlow
    · simp
    · simp
      omega
  cases u with
  | infinity | notANumber => exact h.elim
  | zero sign => exact hzero sign 0#52
  | finite sign m e hm =>
      simp only [IsBelow] at h
      simp only [UnpackedFloat.pack, hbias]
      rw [if_neg (by omega)]
      split
      · refine isBelow_unpack ?_ ?_ hlow
        · rw [unpackExponent_packComponents]
          intro hones
          have := congrArg BitVec.toNat hones
          simp at this
          omega
        · rw [unpackExponent_packComponents]
          simp
          omega
      · exact hzero sign _

/-- The mantissa of a double has 53 bits. -/
theorem mantissa_lt_of_unpack {b : BitVec Format.binary64.numBits} {sign : Sign} {m : Nat} {e : Int}
    {hm : 0 < m} (h : UnpackedFloat.unpack .binary64 b = .finite sign m e hm) : m < 2 ^ 53 := by
  have hfraction := (@unpackMantissa .binary64 b).isLt
  have hwhole := (1#1 ++ @unpackMantissa .binary64 b).isLt
  unfold UnpackedFloat.unpack at h
  dsimp only at h
  split at h
  · split at h <;> cases h
  · split at h
    · split at h
      · cases h
      · cases h
        exact hfraction.trans (by decide)
    · cases h
      exact hwhole

/-! ### Quotients of whole numbers -/

theorem shiftLeft_lt {m bits n most : Nat} (hm : m < 2 ^ bits) (hn : n ≤ most) :
    m <<< n < 2 ^ (bits + most) := by
  rw [Nat.shiftLeft_eq, Nat.pow_add]
  exact Nat.mul_lt_mul_of_lt_of_le hm (Nat.pow_le_pow_right (by decide) hn) (Nat.two_pow_pos _)

/-- A whole number of 64 bits is rounded to one that is finite. -/
theorem isBelow_round {m : Nat} (hm : m < 2 ^ 64) (sign : Sign) :
    IsBelow 250 (round .binary64 sign m 0) := by
  have hmore : m <<< (0 - Format.targetExponent .binary64 (totalExponent m 0)).toNat
      < 2 ^ (64 + 52) := by
    refine shiftLeft_lt hm ?_
    unfold totalExponent
    rw [targetExponent_eq]
    omega
  refine (isBelow_roundWithAccuracy (k := 0) hmore ?_ (by decide) sign .exact).mono (by decide)
  omega

/-- A number of 64 bits is finite as a double. -/
theorem isBelow_toFloat (n : UInt64) : IsBelow 250 n.toFloat.toModel.unpack := by
  have hn := n.toNat_lt
  refine isBelow_unpack_pack ?_ (by decide) (by decide)
  unfold UnpackedFloat.ofUInt64 UnpackedFloat.ofNat UnpackedFloat.ofInt UnpackedFloat.normalize
  split
  · exact isBelow_round (by omega) _
  · trivial
  · exact isBelow_round (by omega) _

/-- A quotient of two mantissas of 53 bits is finite. -/
theorem isBelow_div {m₁ m₂ : Nat} {e₁ e₂ k : Int} (hm₁ : m₁ < 2 ^ 53) (hm₂ : m₂ < 2 ^ 53)
    (hk : e₁ - e₂ ≤ k) (hlow : -1074 ≤ k) (sign₁ sign₂ : Sign) (h₁ : 0 < m₁) (h₂ : 0 < m₂) :
    IsBelow (k + 400) (div .binary64 (.finite sign₁ m₁ e₁ h₁) (.finite sign₂ m₂ e₂ h₂)) := by
  have hlog := log2_le_of_lt hm₂
  have hmore : m₁ <<< (e₁ - e₂ - min (e₁ - e₂) (Format.targetExponent .binary64
      (totalExponent m₁ e₁ - totalExponent m₂ e₂))).toNat < 2 ^ (53 + 106) := by
    refine shiftLeft_lt hm₁ ?_
    unfold totalExponent
    rw [targetExponent_eq]
    omega
  have hquotient := (Nat.div_le_self _ m₂).trans_lt hmore
  refine (isBelow_roundWithAccuracy hquotient ?_ hlow _ _).mono (by omega)
  exact (Int.min_le_left _ _).trans hk

theorem unpack_billion :
    (1e9 : Float).toModel.unpack = .finite .positive 8388608000000000 (-23) (by decide) := by
  have hbits : (1e9 : Float).toModel.toBits = 0x41CDCD6500000000 := by decide +kernel
  rw [Float.Model.unpack, hbits]
  rfl

/-- The seconds of a timestamp are a finite number. -/
theorem isFinite_seconds (t : Timestamp) : t.seconds.isFinite = true := by
  have hdiv : IsBelow 971
      (div .binary64 t.nanos.toFloat.toModel.unpack (1e9 : Float).toModel.unpack) := by
    have hnanos := isBelow_toFloat t.nanos
    rw [unpack_billion]
    cases hu : t.nanos.toFloat.toModel.unpack with
    | infinity | notANumber =>
        rw [hu] at hnanos
        exact hnanos.elim
    | zero => trivial
    | finite sign m e hm =>
        rw [hu] at hnanos
        simp only [IsBelow] at hnanos
        refine (isBelow_div (k := 300) (mantissa_lt_of_unpack hu) (by decide) ?_ (by decide)
          _ _ _ _).mono (by decide)
        omega
  exact (isBelow_unpack_pack hdiv (by decide) (by decide)).isFinite

end CausalTrace.Timestamp
