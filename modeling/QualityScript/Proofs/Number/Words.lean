import Mathlib
import QualityScript.Number.Binary

/-!
# Words as floats

A float has 53 bits for its digits. A whole number with no more digits, zeros at its end apart, is a
float as it is, and comes back when the float is rounded to a word. No other word comes back, except the
largest one: its float is one too large, and is brought back to the range.
-/

namespace QualityScript.Number

open Float.Model

section Fields

variable (b : BitVec Format.binary64.numBits)

theorem toNat_unpackMantissa : (UnpackedFloat.unpackMantissa b).toNat = b.toNat % hiddenBit := by
  simp [UnpackedFloat.unpackMantissa, BitVec.extractLsb_toNat, hiddenBit]

theorem toNat_unpackExponent :
    (UnpackedFloat.unpackExponent b).toNat = b.toNat / hiddenBit % 2048 := by
  simp [UnpackedFloat.unpackExponent, BitVec.extractLsb_toNat, hiddenBit, Nat.shiftRight_eq_div_pow]

theorem toNat_unpackSign :
    (UnpackedFloat.unpackSign b).toNat = b.toNat / (2048 * hiddenBit) % 2 := by
  simp [UnpackedFloat.unpackSign, BitVec.extractLsb_toNat, hiddenBit, Nat.shiftRight_eq_div_pow]

end Fields

theorem toNat_one_append (f : BitVec 52) : (1#1 ++ f).toNat = hiddenBit + f.toNat := by
  have hf := f.isLt
  rw [BitVec.toNat_append, ← Nat.shiftLeft_add_eq_or_of_lt f.isLt]
  rfl

theorem ofBitVec_beq_negative (v : BitVec 1) :
    (UnpackedFloat.Sign.ofBitVec v == .negative) = (v.toNat == 1) := by
  revert v
  decide

theorem Binary.ofBits_of_unpack {b : BitVec Format.binary64.numBits} {s : UnpackedFloat.Sign}
    {m : Nat} {e : Int} {hm : 0 < m} (h : UnpackedFloat.unpack .binary64 b = .finite s m e hm) :
    ofBits b.toNat = finite (s == .negative) m e := by
  unfold ofBits
  dsimp only
  rw [← toNat_unpackMantissa, ← toNat_unpackExponent, ← toNat_unpackSign, ← ofBitVec_beq_negative]
  unfold UnpackedFloat.unpack at h
  dsimp only at h
  split at h
  · split at h <;> cases h
  · next hfinite =>
    have hne : (UnpackedFloat.unpackExponent b).toNat ≠ 2047 :=
      fun heq => hfinite (BitVec.eq_of_toNat_eq heq)
    have hzero : (UnpackedFloat.unpackExponent b).toNat = 0 ↔ UnpackedFloat.unpackExponent b = 0 :=
      BitVec.toNat_inj (y := 0)
    rw [if_neg hne]
    split at h
    · next hsubnormal =>
      rw [if_pos (hzero.mpr hsubnormal)]
      split at h
      · cases h
      · cases h
        rw [hsubnormal]
        rfl
    · next hnormal =>
      rw [if_neg (mt hzero.mp hnormal)]
      cases h
      rw [toNat_one_append]
      rfl

/-- What is read of a finite float that is not zero is its sign, mantissa and exponent. -/
theorem Binary.ofFloat_of_finite {x : Float} {s : UnpackedFloat.Sign} {m : Nat} {e : Int}
    {hm : 0 < m} (h : x.toModel.unpack = .finite s m e hm) :
    ofFloat x = finite (s == .negative) m e :=
  ofBits_of_unpack h

theorem Binary.mantissa_lt {x : Float} {negative : Bool} {m : Nat} {e : Int}
    (h : ofFloat x = finite negative m e) : m < 2 * hiddenBit := by
  unfold ofFloat ofBits at h
  dsimp only at h
  split at h
  · split at h <;> cases h
  · split at h <;>
    · cases h
      have hmod := Nat.mod_lt x.toBits.toNat (show hiddenBit > 0 by decide)
      omega

/-! ## Exact rounding -/

theorem log2_eq_iff_normal {m : Nat} (hm : 0 < m) :
    m.log2 = 52 ↔ hiddenBit ≤ m ∧ m < 2 * hiddenBit := by
  rw [Nat.log2_eq_iff hm.ne']
  rfl

theorem unpack_pack_normal {s : UnpackedFloat.Sign} {m : Nat} {e : Int} (hm : 0 < m)
    (hlog : m.log2 = 52) (hlow : -1074 ≤ e) (hhigh : e ≤ 971) :
    UnpackedFloat.unpack .binary64 (UnpackedFloat.pack .binary64 (.finite s m e hm)) =
      .finite s m e hm := by
  obtain ⟨hlower, hupper⟩ := (log2_eq_iff_normal hm).mp hlog
  obtain ⟨n, rfl⟩ : ∃ n : Nat, e = n - 1075 := ⟨(e + 1075).toNat, by omega⟩
  have hbias : Format.binary64.exponentBias = 1023 := rfl
  have hbits : Format.binary64.mantissaBits = 53 := rfl
  have hbiased : ((n : Int) - 1075 + (1023 : Nat) + (52 : Nat)).toNat = n := by omega
  have hpack : UnpackedFloat.pack .binary64 (.finite s m (n - 1075) hm) =
      UnpackedFloat.packComponents .binary64 s (.ofNat 11 n) (.ofNat 52 m) := by
    simp only [UnpackedFloat.pack, hbias, hbits, hbiased, hlog]
    rw [if_neg (by omega), if_pos trivial]
  have hexponent : (BitVec.ofNat 11 n).toNat = n := by
    rw [BitVec.toNat_ofNat]
    omega
  have hmantissa : (1#1 ++ BitVec.ofNat 52 m).toNat = m := by
    rw [toNat_one_append, BitVec.toNat_ofNat]
    change hiddenBit + m % hiddenBit = m
    rw [Nat.mod_eq_sub_mod hlower, Nat.mod_eq_of_lt (by omega)]
    omega
  have hfinite : BitVec.ofNat 11 n ≠ -1#11 := by
    intro heq
    rw [heq] at hexponent
    change 2047 = n at hexponent
    omega
  have hnormal : BitVec.ofNat 11 n ≠ 0#11 := by
    intro heq
    rw [heq] at hexponent
    change 0 = n at hexponent
    omega
  rw [hpack, UnpackedFloat.unpack]
  simp only [UnpackedFloat.unpackMantissa_packComponents, UnpackedFloat.unpackExponent_packComponents,
    UnpackedFloat.unpackSign_packComponents, UnpackedFloat.Sign.ofBitVec_toBitVec, hfinite, hnormal,
    if_false, hmantissa, hexponent]
  rfl

theorem targetExponent_binary64 (n : Int) :
    Format.binary64.targetExponent n = max (n - 53) (-1074) := rfl

theorem log2_mul_two_pow {m : Nat} (hm : 0 < m) (k : Nat) : (m * 2 ^ k).log2 = m.log2 + k := by
  rw [Nat.log2_eq_iff (Nat.mul_pos hm (Nat.two_pow_pos k)).ne']
  obtain ⟨hlow, hhigh⟩ := (Nat.log2_eq_iff hm.ne').mp rfl
  rw [Nat.pow_add, Nat.add_right_comm, Nat.pow_add]
  exact ⟨Nat.mul_le_mul_right _ hlow, Nat.mul_lt_mul_of_pos_right hhigh (Nat.two_pow_pos k)⟩

/-- Zeros that are shifted out leave no rest. -/
theorem shiftRight_mul_two_pow (m k : Nat) :
    UnpackedFloat.ExtendedMantissa.mk (m * 2 ^ k) false false >>> k = ⟨m, false, false⟩ := by
  change Nat.repeat UnpackedFloat.ExtendedMantissa.shiftRightOne k _ = _
  induction k generalizing m with
  | zero => simp [Nat.repeat]
  | succ k ih =>
    rw [Nat.pow_succ', ← Nat.mul_assoc, Nat.repeat, ih]
    simp [UnpackedFloat.ExtendedMantissa.shiftRightOne]

theorem shiftToTargetExponent_exact {m k : Nat} {e : Int} (hm : 0 < m) (hlog : m.log2 = 52)
    (he : -1074 ≤ e + k) :
    UnpackedFloat.shiftToTargetExponent .binary64 (m * 2 ^ k) e .exact =
      (⟨m, false, false⟩, e + k) := by
  have htarget : Format.binary64.targetExponent (totalExponent (m * 2 ^ k) e) = e + k := by
    rw [targetExponent_binary64, totalExponent, log2_mul_two_pow hm, hlog]
    omega
  have hshift : (e + k - e).toNat = k := by omega
  simp only [UnpackedFloat.shiftToTargetExponent, UnpackedFloat.shiftToExponent, htarget, hshift]
  rw [UnpackedFloat.ExtendedMantissa.ofMantissaAndAccuracy, shiftRight_mul_two_pow]

/-- A mantissa of 53 bits with zeros at its end is rounded to itself. -/
theorem roundWithAccuracy_exact {s : UnpackedFloat.Sign} {m k : Nat} {e : Int} (hm : 0 < m)
    (hlog : m.log2 = 52) (he : -1074 ≤ e + k) :
    UnpackedFloat.roundWithAccuracy .binary64 s (m * 2 ^ k) e .exact = .finite s m (e + k) hm := by
  have hagain := shiftToTargetExponent_exact (k := 0) hm hlog (by simpa using he)
  rw [Nat.pow_zero, Nat.mul_one] at hagain
  have hrounded : UnpackedFloat.ExtendedMantissa.roundedMantissa ⟨m, false, false⟩ = m := rfl
  unfold UnpackedFloat.roundWithAccuracy
  simp only [shiftToTargetExponent_exact hm hlog he, hrounded, hagain]
  simp [hm.ne']

/-! ## Whole numbers as floats -/

variable {n m k : Nat}

theorem unpack_ofModel_normal {s : UnpackedFloat.Sign} {e : Int} (hm : 0 < m) (hlog : m.log2 = 52)
    (hlow : -1074 ≤ e) (hhigh : e ≤ 971) :
    (Float.ofModel (.pack (.finite s m e hm))).toModel.unpack = .finite s m e hm :=
  unpack_pack_normal hm hlog hlow hhigh

theorem unpack_one : Float.exactlyRepresentablePowersOfTen[0].toModel.unpack =
    .finite .positive hiddenBit (-52) (by decide) := by
  have hone : Float.exactlyRepresentablePowersOfTen[0] =
      .ofModel (.pack (.finite .positive hiddenBit (-52) (by decide))) := by
    decide +kernel
  rw [hone]
  exact unpack_ofModel_normal (by decide) (by decide) (by decide) (by decide)

theorem round_small (hn : 0 < n) (hlt : n.log2 ≤ 52) :
    UnpackedFloat.round .binary64 .positive n 0 =
      .finite .positive (n * 2 ^ (52 - n.log2)) (n.log2 - 52) (by positivity) := by
  have hlog : (n * 2 ^ (52 - n.log2)).log2 = 52 := by
    rw [log2_mul_two_pow hn]
    omega
  have htarget : Format.binary64.targetExponent (totalExponent n 0) = n.log2 - 52 := by
    rw [targetExponent_binary64, totalExponent]
    omega
  have hshift : ((0 : Int) - (n.log2 - 52)).toNat = 52 - n.log2 := by omega
  have hround := roundWithAccuracy_exact (s := .positive) (k := 0) (e := n.log2 - 52)
    (show 0 < n * 2 ^ (52 - n.log2) by positivity) hlog (by omega)
  simp only [Nat.pow_zero, Nat.mul_one, Nat.cast_zero, Int.add_zero] at hround
  simp only [UnpackedFloat.round, htarget, UnpackedFloat.decreaseExponent, hshift, Nat.shiftLeft_eq]
  rw [← hround]
  congr 1
  omega

theorem unpack_ofNat_small (hn : 0 < n) (hlt : n < 2 ^ 53) : (Float.ofNat n).toModel.unpack =
    .finite .positive (n * 2 ^ (52 - n.log2)) (n.log2 - 52) (by positivity) := by
  have hlog2 : n.log2 ≤ 52 := Nat.lt_succ_iff.mp ((Nat.log2_lt hn.ne').mpr hlt)
  have hm : 0 < n * 2 ^ (52 - n.log2) := by positivity
  have hlog : (n * 2 ^ (52 - n.log2)).log2 = 52 := by
    rw [log2_mul_two_pow hn]
    omega
  have hofNat : Float.ofNat n =
      n.toUInt64.toFloat * Float.exactlyRepresentablePowersOfTen[0] := by
    change Float.ofScientific n false 0 = _
    rw [Float.ofScientific, dif_pos ⟨hlt, Nat.zero_le _⟩]
    rfl
  have hword : n.toUInt64.toNat = n := by
    rw [Nat.toUInt64_eq, UInt64.toNat_ofNat']
    exact Nat.mod_eq_of_lt (hlt.trans (by decide))
  have htoFloat : n.toUInt64.toFloat.toModel.unpack =
      .finite .positive (n * 2 ^ (52 - n.log2)) (n.log2 - 52) hm := by
    change UnpackedFloat.unpack .binary64 (UnpackedFloat.pack .binary64
      (UnpackedFloat.normalize .binary64 (n.toUInt64.toNat : Int) 0 .positive)) = _
    rw [hword, UnpackedFloat.normalize]
    have hpos : compare (n : Int) 0 = .gt := compare_gt_iff_gt.mpr (Int.natCast_pos.mpr hn)
    simp only [hpos, Int.toNat_natCast, round_small hn hlog2]
    exact unpack_pack_normal hm hlog (by omega) (by omega)
  rw [hofNat]
  change UnpackedFloat.unpack .binary64 (UnpackedFloat.pack .binary64
    (UnpackedFloat.mul .binary64 n.toUInt64.toFloat.toModel.unpack
      Float.exactlyRepresentablePowersOfTen[0].toModel.unpack)) = _
  rw [htoFloat, unpack_one]
  have hround := roundWithAccuracy_exact (s := .positive) (k := 52) (e := n.log2 - 52 + -52) hm hlog
    (by omega)
  have hexponent : (n.log2 : Int) - 52 + -52 + (52 : Nat) = n.log2 - 52 := by omega
  simp only [hexponent] at hround
  have hmul : UnpackedFloat.mul .binary64
      (.finite .positive (n * 2 ^ (52 - n.log2)) (n.log2 - 52) hm)
      (.finite .positive hiddenBit (-52) (by decide)) =
        .finite .positive (n * 2 ^ (52 - n.log2)) (n.log2 - 52) hm := hround
  rw [hmul]
  exact unpack_pack_normal hm hlog (by omega) (by omega)

theorem unpack_ofNat_large (hm : 0 < m) (hlog : m.log2 = 52) (hk : 0 < k) (hhigh : k ≤ 971) :
    (Float.ofNat (m * 2 ^ k)).toModel.unpack = .finite .positive m k hm := by
  have hlarge : 2 ^ 53 ≤ m * 2 ^ k := by
    have hlog' : (m * 2 ^ k).log2 = 52 + k := by rw [log2_mul_two_pow hm, hlog]
    have hle := Nat.log2_self_le (n := m * 2 ^ k) (by positivity)
    rw [hlog'] at hle
    exact (Nat.pow_le_pow_right (by decide) (by omega)).trans hle
  have hofNat : Float.ofNat (m * 2 ^ k) =
      .ofModel (.pack (UnpackedFloat.ofScientific .binary64 (m * 2 ^ k) 0)) := by
    change Float.ofScientific (m * 2 ^ k) false 0 = _
    rw [Float.ofScientific, dif_neg fun h => absurd h.1 (not_lt.mpr hlarge)]
    rfl
  have hround := roundWithAccuracy_exact (s := .positive) (k := k + 53) (e := -53) hm hlog (by omega)
  have hscientific : UnpackedFloat.ofScientific .binary64 (m * 2 ^ k) 0 = .finite .positive m k hm := by
    have hpos : m * 2 ^ k ≠ 0 := by positivity
    have hbits : Format.binary64.mantissaBits = 53 := rfl
    simp only [UnpackedFloat.ofScientific, hpos, dite_false, hbits, Nat.shiftLeft_eq, Nat.mul_assoc,
      ← Nat.pow_add]
    rw [if_neg (by decide), if_neg (by omega), if_pos (Int.le_refl 0)]
    have hexponent : -53 + ((k + 53 : Nat) : Int) = k := by omega
    simp only [hexponent] at hround
    simp only [UnpackedFloat.mul, Int.toNat_zero, Nat.pow_zero, Nat.mul_one, Int.add_zero]
    exact hround
  rw [hofNat, hscientific]
  exact unpack_ofModel_normal hm hlog (by omega) (by omega)

/-- A number that has 53 binary digits at most, zeros at its end apart. -/
def FitsFloat (n : Nat) : Prop := ∃ m k, m < 2 * hiddenBit ∧ n = m * 2 ^ k

theorem fitsFloat_of_lt (h : n < 2 * hiddenBit) : FitsFloat n := ⟨n, 0, h, (Nat.mul_one n).symm⟩

theorem FitsFloat.exists_normal (h : FitsFloat n) (hlarge : 2 ^ 53 ≤ n) :
    ∃ m k, 0 < k ∧ k = n.log2 - 52 ∧ m.log2 = 52 ∧ 0 < m ∧ n = m * 2 ^ k := by
  obtain ⟨m, k, hlt, rfl⟩ := h
  have hm : 0 < m := Nat.pos_of_mul_pos_right (Nat.lt_of_lt_of_le (by decide) hlarge)
  have hsmall : m.log2 ≤ 52 := Nat.lt_succ_iff.mp ((Nat.log2_lt hm.ne').mpr hlt)
  have hlog := log2_mul_two_pow hm k
  have hbits : 53 ≤ (m * 2 ^ k).log2 := (Nat.le_log2 (by positivity)).mpr hlarge
  refine ⟨m * 2 ^ (52 - m.log2), k - (52 - m.log2), by omega, by omega, ?_, by positivity, ?_⟩
  · rw [log2_mul_two_pow hm]
    omega
  · rw [Nat.mul_assoc, ← Nat.pow_add]
    congr 2
    omega

/-- A number of 53 binary digits is a float as it is. -/
theorem FitsFloat.exists_unpack (h : FitsFloat n) (hn : 0 < n) (hlt : n < 2 ^ 64) :
    ∃ m e hm, (Float.ofNat n).toModel.unpack = .finite .positive m e hm ∧ m.log2 = 52 ∧
      -1074 ≤ e ∧ e ≤ 971 ∧ roundMagnitude m e = n := by
  have hbits : n.log2 < 64 := (Nat.log2_lt hn.ne').mpr hlt
  by_cases hsmall : n < 2 ^ 53
  · have hlog : n.log2 < 53 := (Nat.log2_lt hn.ne').mpr hsmall
    refine ⟨_, _, _, unpack_ofNat_small hn hsmall, ?_, by omega, by omega, ?_⟩
    · rw [log2_mul_two_pow hn]
      omega
    · cases hgap : 52 - n.log2 with
      | zero =>
        have hexponent : (n.log2 : Int) - 52 = .ofNat 0 := by simp; omega
        rw [hexponent, roundMagnitude]
        exact Nat.mul_one _ |>.trans (Nat.mul_one n)
      | succ j =>
        have hexponent : (n.log2 : Int) - 52 = .negSucc j := by omega
        rw [hexponent, roundMagnitude]
        change (n * 2 ^ (j + 1) + 2 ^ j) / 2 ^ (j + 1) = n
        rw [Nat.mul_comm, Nat.mul_add_div (Nat.two_pow_pos _),
          Nat.div_eq_of_lt (Nat.pow_lt_pow_right (by decide) j.lt_succ_self), Nat.add_zero]
  · obtain ⟨m, k, hk, hexponent, hlog, hm, rfl⟩ := h.exists_normal (not_lt.mp hsmall)
    exact ⟨m, k, hm, unpack_ofNat_large hm hlog hk (by omega), hlog, by omega, by omega, rfl⟩

theorem roundWord_of_finite {x : Float} {s : UnpackedFloat.Sign} {e : Int} {hm : 0 < m}
    (h : x.toModel.unpack = .finite s m e hm) :
    roundWord x = saturate (signed (s == .negative) (roundMagnitude m e)) := by
  rw [roundWord, Binary.ofFloat_of_finite h]

/-- A word of 53 binary digits comes back from its float. -/
theorem roundWord_ofWord_of_fitsFloat {w : Int64} (h : FitsFloat w.toInt.natAbs) :
    roundWord (ofWord w) = w := by
  have hlow := Int64.le_toInt w
  have hhigh := Int64.toInt_lt w
  obtain ⟨N, hN⟩ | ⟨N, hN⟩ : (∃ N : Nat, w.toInt = N) ∨ ∃ N : Nat, w.toInt = .negSucc N := by
    cases w.toInt with
    | ofNat N => exact .inl ⟨N, rfl⟩
    | negSucc N => exact .inr ⟨N, rfl⟩
  · obtain rfl | hpos := Nat.eq_zero_or_pos N
    · obtain rfl : w = 0 := Int64.toInt_inj.mp hN
      decide +kernel
    · rw [hN, Int.natAbs_natCast] at h
      obtain ⟨m, e, hm, hunpack, -, -, -, hround⟩ := h.exists_unpack hpos (by omega)
      have hword : ofWord w = Float.ofNat N := by rw [ofWord, hN]; rfl
      rw [hword, roundWord_of_finite hunpack, hround]
      exact (congrArg saturate hN.symm).trans (saturate_toInt w)
  · rw [hN, Int.natAbs_negSucc] at h
    obtain ⟨m, e, hm, hunpack, hlog, hle, hge, hround⟩ := h.exists_unpack N.succ_pos (by omega)
    have hneg : (ofWord w).toModel.unpack = .finite .negative m e hm := by
      have hword : ofWord w = -Float.ofNat N.succ := by rw [ofWord, hN]; rfl
      have hpack : -Float.ofNat N.succ =
          .ofModel (.pack (Float.ofNat N.succ).toModel.unpack.neg) := rfl
      rw [hword, hpack, hunpack]
      exact unpack_ofModel_normal hm hlog hle hge
    rw [roundWord_of_finite hneg, hround]
    exact (congrArg saturate hN.symm).trans (saturate_toInt w)

theorem fitsFloat_roundMagnitude (hm : m < 2 * hiddenBit) (e : Int) :
    FitsFloat (roundMagnitude m e) := by
  cases e with
  | ofNat k => exact ⟨m, k, hm, rfl⟩
  | negSucc k =>
    refine fitsFloat_of_lt (Nat.div_lt_of_lt_mul ?_)
    change m + 2 ^ k < 2 ^ (k + 1) * (2 * hiddenBit)
    have hpow : 1 ≤ 2 ^ k := Nat.one_le_two_pow
    have hmantissa : m < 2 ^ k * (2 * hiddenBit) := hm.trans_le (Nat.le_mul_of_pos_left _ hpow)
    have hhalf : 2 ^ k ≤ 2 ^ k * (2 * hiddenBit) := Nat.le_mul_of_pos_right _ (by decide)
    rw [Nat.pow_succ, Nat.mul_right_comm, Nat.mul_two]
    exact Nat.add_lt_add_of_lt_of_le hmantissa hhalf

theorem fitsFloat_saturate_signed (negative : Bool) (h : FitsFloat n) :
    (saturate (signed negative n)).toInt = maxWord ∨
      FitsFloat (saturate (signed negative n)).toInt.natAbs := by
  rw [toInt_saturate]
  by_cases hhigh : maxWord ≤ signed negative n
  · left
    unfold limit maxWord minWord at *
    omega
  right
  by_cases hlow : signed negative n ≤ minWord
  · have hmin : limit (signed negative n) = minWord := by
      unfold limit maxWord minWord at *
      omega
    rw [hmin]
    exact ⟨1, 63, by decide, rfl⟩
  · rw [limit_of_mem (by omega) (by omega)]
    cases negative
    · exact h
    · rwa [signed, if_pos rfl, Int.natAbs_neg]

/-- What a float is rounded to has 53 binary digits at most, or is the largest word. -/
theorem fitsFloat_roundWord (x : Float) :
    (roundWord x).toInt = maxWord ∨ FitsFloat (roundWord x).toInt.natAbs := by
  unfold roundWord
  split
  · exact .inr (fitsFloat_of_lt (by decide))
  · next negative _ =>
    cases negative
    · exact .inl (by decide)
    · exact .inr ⟨1, 63, by decide, by decide⟩
  · next negative m e hfinite =>
    exact fitsFloat_saturate_signed negative
      (fitsFloat_roundMagnitude (Binary.mantissa_lt hfinite) e)

theorem roundWord_ofWord_eq_iff {w : Int64} :
    roundWord (ofWord w) = w ↔ w.toInt = maxWord ∨ FitsFloat w.toInt.natAbs := by
  constructor
  · intro h
    rw [← h]
    exact fitsFloat_roundWord _
  · rintro (hmax | hfits)
    · obtain rfl : w = Int64.maxValue := Int64.toInt_inj.mp hmax
      decide +kernel
    · exact roundWord_ofWord_of_fitsFloat hfits

end QualityScript.Number
