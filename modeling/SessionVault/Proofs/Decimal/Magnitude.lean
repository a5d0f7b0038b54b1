import Mathlib

/-!
Bounds on the size of binary floats, from which whole numbers of at most 64 bits have finite floats
nearest to them: `isFinite_ofInt`.
-/

namespace SessionVault.Binary64

open Float.Model (Format UnpackedFloat totalExponent)
open Float.Model.UnpackedFloat

def Fits (a : Nat) (b : Int) : UnpackedFloat → Prop
  | .zero _ => True
  | .finite _ m e _ => m < 2 ^ a ∧ e ≤ b
  | .infinity _ | .notANumber => False

variable {a a' m : Nat} {b b' e : Int} {u v : UnpackedFloat} {x : Float}

theorem Fits.isFinite (h : Fits a b u) : u.isFinite = true := by
  cases u with
  | zero s => rfl
  | finite s m e hm => rfl
  | infinity | notANumber => exact h.elim

theorem Fits.neg (h : Fits a b u) : Fits a b u.neg := by
  cases u with
  | zero | finite => exact h
  | infinity | notANumber => exact h.elim

theorem Fits.mono (h : Fits a b u) (hb : b ≤ b') : Fits a b' u := by
  cases u with
  | zero s => trivial
  | finite s m e hm => exact ⟨h.1, Int.le_trans h.2 hb⟩
  | infinity | notANumber => exact h.elim

theorem mantissa_shiftRight_le (em : ExtendedMantissa) (n : Nat) :
    (em >>> n).mantissa ≤ em.mantissa := by
  induction n with
  | zero => exact Nat.le_refl _
  | succ n ih => exact Nat.le_trans (Nat.div_le_self _ 2) ih

theorem roundedMantissa_le (em : ExtendedMantissa) : em.roundedMantissa ≤ em.mantissa + 1 := by
  rw [ExtendedMantissa.roundedMantissa]
  generalize em.accuracy = acc
  fun_cases Accuracy.roundToNearestEven em.mantissa acc <;> omega

theorem mantissa_ofMantissaAndAccuracy (m : Nat) (acc : Accuracy) :
    (ExtendedMantissa.ofMantissaAndAccuracy m acc).mantissa = m := by
  fun_cases ExtendedMantissa.ofMantissaAndAccuracy <;> rfl

theorem shiftToTargetExponent_le (acc : Accuracy) (ha : 0 < a) (hm : m < 2 ^ a) (he : e ≤ b)
    (hb : -1074 ≤ b) :
    (shiftToTargetExponent Format.binary64 m e acc).1.mantissa ≤ m ∧
      (shiftToTargetExponent Format.binary64 m e acc).2 ≤ a + b := by
  constructor
  · refine Nat.le_trans (mantissa_shiftRight_le _ _) ?_
    exact Nat.le_of_eq (mantissa_ofMantissaAndAccuracy m acc)
  · have hlog : m.log2 < a := by
      cases m with
      | zero => simpa using ha
      | succ m => exact (Nat.log2_lt (Nat.succ_ne_zero m)).2 hm
    simp only [shiftToTargetExponent, shiftToExponent, Format.targetExponent, totalExponent,
      Format.mantissaBits, Format.minExponent]
    omega

theorem fits_roundWithAccuracy (s : Sign) (acc : Accuracy) (ha : 0 < a) (hm : m < 2 ^ a)
    (he : e ≤ b) (hb : -1074 ≤ b) :
    Fits (a + 1) (2 * a + b + 1) (roundWithAccuracy Format.binary64 s m e acc) := by
  have h₁ := shiftToTargetExponent_le acc ha hm he hb
  have hround := roundedMantissa_le (shiftToTargetExponent Format.binary64 m e acc).1
  have hlt : (shiftToTargetExponent Format.binary64 m e acc).1.roundedMantissa < 2 ^ (a + 1) := by
    rw [Nat.pow_succ]
    omega
  have h₂ := shiftToTargetExponent_le .exact (Nat.succ_pos a) hlt h₁.2 (by omega)
  rw [roundWithAccuracy]
  dsimp only
  split
  · trivial
  · refine ⟨Nat.lt_of_le_of_lt h₂.1 hlt, ?_⟩
    have := h₂.2
    push_cast at this
    omega

theorem fits_unpack {exponent : Nat} (s : Sign) (mantissa : BitVec 52) (h : exponent < 2047) :
    Fits 53 (max (exponent - 1075) (-1074))
      (UnpackedFloat.unpack Format.binary64
        (packComponents Format.binary64 s (BitVec.ofNat 11 exponent) mantissa)) := by
  have hn : (BitVec.ofNat 11 exponent).toNat = exponent := by
    rw [BitVec.toNat_ofNat, Nat.mod_eq_of_lt (by omega)]
  have hspecial : BitVec.ofNat 11 exponent ≠ -1#11 := by
    intro he
    have := hn.symm.trans (congrArg BitVec.toNat he)
    rw [show (-1#11).toNat = 2047 from rfl] at this
    omega
  have hm := mantissa.isLt
  have hbias : (Format.binary64.exponentBias : Int) = 1023 := rfl
  simp only [UnpackedFloat.unpack, unpackExponent_packComponents, unpackMantissa_packComponents,
    if_neg hspecial, hbias, hn]
  split
  · next hz =>
    have : exponent = 0 := by rw [← hn, hz]; rfl
    split
    · trivial
    · exact ⟨by omega, by omega⟩
  · exact ⟨BitVec.isLt _, by omega⟩

theorem fits_pack (h : Fits a b u) (hb : -1074 ≤ b) (hmax : b ≤ 970) :
    Fits 53 b (Float.Model.pack u).unpack := by
  have hfits (s : Sign) (exponent : Nat) (mantissa : BitVec 52) (he : (exponent : Int) ≤ b + 1075) :
      Fits 53 b (UnpackedFloat.unpack Format.binary64
        (packComponents Format.binary64 s (BitVec.ofNat 11 exponent) mantissa)) := by
    refine (fits_unpack s mantissa (by omega)).mono (by omega)
  simp only [Float.Model.unpack, Float.Model.pack, UInt64.toBitVec_ofBitVec]
  cases u with
  | infinity | notANumber => exact h.elim
  | zero s => exact hfits s 0 0 (by omega)
  | finite s m e hm =>
    have hbias : (Format.binary64.exponentBias : Int) = 1023 := rfl
    rw [UnpackedFloat.pack]
    dsimp only
    rw [hbias, if_neg (by have := h.2; omega)]
    split
    · exact hfits s _ _ (by have := h.2; omega)
    · exact hfits s 0 _ (by omega)

/-- Above `2 ^ 1023` in size lie floats that the format cannot hold; with `b` up to 970 a float
stays below. -/
abbrev Moderate (b : Int) (x : Float) : Prop := Fits 53 b x.toModel.unpack

theorem fits_mul (hu : Fits a b u) (hv : Fits a' b' v) (ha : 0 < a + a') (hb : -1074 ≤ b + b') :
    Fits (a + a' + 1) (2 * (a + a') + (b + b') + 1) (UnpackedFloat.mul Format.binary64 u v) := by
  cases u with
  | infinity | notANumber => exact hu.elim
  | zero s =>
    cases v with
    | infinity | notANumber => exact hv.elim
    | zero | finite => trivial
  | finite s m e hm =>
    cases v with
    | infinity | notANumber => exact hv.elim
    | zero => trivial
    | finite s' m' e' hm' =>
      have hlt : m * m' < 2 ^ (a + a') := by
        rw [Nat.pow_add]
        exact Nat.mul_lt_mul'' hu.1 hv.1
      rw [UnpackedFloat.mul]
      exact_mod_cast fits_roundWithAccuracy (s * s') .exact ha hlt (Int.add_le_add hu.2 hv.2) hb

/-- Shifting a whole number left to fill the format leaves it below the sum of both widths. -/
theorem fits_ofNat {n : Nat} (hn : n < 2 ^ 53) :
    Fits 107 213 (UnpackedFloat.ofNat Format.binary64 n) := by
  rw [UnpackedFloat.ofNat, UnpackedFloat.ofInt, UnpackedFloat.normalize]
  split
  · next h =>
    rw [Int.compare_eq_lt] at h
    omega
  · trivial
  · rw [UnpackedFloat.round]
    simp only [UnpackedFloat.decreaseExponent, Int.toNat_natCast]
    generalize hshift : (0 - Format.binary64.targetExponent (totalExponent n 0)).toNat = shift
    have hs : shift ≤ 53 := by
      rw [← hshift]
      simp only [Format.targetExponent, totalExponent, Format.mantissaBits, Format.minExponent]
      omega
    have hlt : n <<< shift < 2 ^ 106 := by
      rw [Nat.shiftLeft_eq]
      calc n * 2 ^ shift < 2 ^ 53 * 2 ^ 53 :=
            Nat.mul_lt_mul_of_lt_of_le hn (Nat.pow_le_pow_right (by omega) hs) (Nat.two_pow_pos 53)
        _ = 2 ^ 106 := rfl
    exact fits_roundWithAccuracy .positive .exact (by omega) hlt (b := 0) (by omega) (by omega)

theorem fits_ofScientific {n : Nat} (h₀ : 0 < n) (hn : n < 2 ^ 64) :
    Fits (64 + 53 + 1 + 1) 184 (UnpackedFloat.ofScientific Format.binary64 n 0) := by
  have hlt : n <<< 53 < 2 ^ (64 + 53) := by
    rw [Nat.shiftLeft_eq, Nat.pow_add]
    exact Nat.mul_lt_mul_of_pos_right hn (Nat.two_pow_pos 53)
  have hm : 0 < n <<< 53 := by
    rw [Nat.shiftLeft_eq]
    exact Nat.mul_pos h₀ (Nat.two_pow_pos 53)
  have hrange : (2 : Int) ^ Format.binary64.exponentBits = 2048 := rfl
  have hsmall : ¬ (0 : Int) < -(2048 + n.log2) := by omega
  rw [UnpackedFloat.ofScientific, dif_neg (Nat.ne_of_gt h₀), hrange, if_neg (by decide),
    if_neg hsmall, if_pos (Int.le_refl 0)]
  change Fits _ _ (UnpackedFloat.mul _ (.finite .positive (n <<< 53) (-53) hm)
    (.finite .positive 1 0 Nat.one_pos))
  generalize n <<< 53 = m at hlt hm
  have h₁ : Fits (64 + 53) (-53) (.finite .positive m (-53) hm) := ⟨hlt, Int.le_refl _⟩
  have h₂ : Fits 1 0 (.finite .positive 1 0 Nat.one_pos) := ⟨by decide, Int.le_refl 0⟩
  have h := fits_mul h₁ h₂ (by omega) (by omega)
  exact h.mono (by omega)

theorem moderate_ofNat {n : Nat} (hn : n < 2 ^ 64) : Moderate 970 (Float.ofNat n) := by
  change Moderate 970 (Float.ofScientific n false 0)
  rw [Float.ofScientific]
  by_cases h : n < 2 ^ 53
  · rw [dif_pos ⟨h, by omega⟩]
    have hu : n.toUInt64.toNat = n := UInt64.toNat_ofNat_of_lt' hn
    have h₁ : Moderate 213 n.toUInt64.toFloat := by
      have := fits_pack (fits_ofNat h) (by omega) (by omega)
      rwa [← hu] at this
    have h₂ : Moderate (-52) Float.exactlyRepresentablePowersOfTen[0] := ⟨by decide, by decide⟩
    exact fits_pack ((fits_mul h₁ h₂ (by omega) (by omega)).mono (by omega)) (by omega) (by omega)
  · rw [dif_neg (fun hc => h hc.1)]
    have hbig := fits_ofScientific (Nat.lt_of_lt_of_le (Nat.two_pow_pos 53) (Nat.not_lt.1 h)) hn
    exact fits_pack (hbig.mono (by omega)) (by omega) (by omega)

theorem isFinite_ofInt {n : Int} (h : -2 ^ 64 < n ∧ n < 2 ^ 64) :
    (Float.ofInt n).isFinite = true := by
  have hfin {x : Float} (hx : Moderate 970 x) : x.isFinite = true := Fits.isFinite hx
  cases n with
  | ofNat n => exact hfin (moderate_ofNat (Int.ofNat_lt.1 h.2))
  | negSucc n =>
    have : Moderate 970 (Float.ofNat (n + 1)) := moderate_ofNat (by omega)
    exact hfin (fits_pack this.neg (by omega) (by omega))

end SessionVault.Binary64
