import QualityScript.Proofs.Number.Words

/-!
# Rounding to the nearest float

The least float above zero is a unit, and every float that is finite is a whole number of units. A
number of units that is rounded has its mantissa shifted down to 53 binary digits, and of the digits
that go, a round bit and a sticky bit keep what decides the rounding. What comes out is nearest to the
number: no float, however large its exponent may be, is nearer.
-/

namespace QualityScript.Number

open Float.Model
open Float.Model.UnpackedFloat (ExtendedMantissa Sign)

/-- The mantissa is the quotient, and the two bits tell how the rest compares to half the divisor. -/
structure Describes (em : ExtendedMantissa) (n d : Nat) : Prop where
  mantissa : em.mantissa = n / d
  roundBit : em.roundBit = decide (d ≤ 2 * (n % d))
  stickyBit : em.stickyBit = decide (2 * (n % d) ≠ 0 ∧ 2 * (n % d) ≠ d)

theorem Describes.ofMantissa (n : Nat) : Describes ⟨n, false, false⟩ n 1 :=
  ⟨(Nat.div_one n).symm, by simp [Nat.mod_one], by simp [Nat.mod_one]⟩

theorem Describes.shiftRightOne {em : ExtendedMantissa} {n d : Nat} (hd : 0 < d)
    (h : Describes em n d) : Describes em.shiftRightOne n (2 * d) := by
  have hquotient : n / (2 * d) = n / d / 2 := by rw [Nat.mul_comm, Nat.div_div_eq_div_mul]
  have hrest : n % (2 * d) = n % d + d * (n / d % 2) := by rw [Nat.mul_comm, Nat.mod_mul]
  have hlt : n % d < d := Nat.mod_lt n hd
  obtain ⟨hmantissa, hround, hsticky⟩ := h
  constructor
  · rw [ExtendedMantissa.shiftRightOne, hmantissa, hquotient]
  · -- The digit that goes decides whether the rest is half the new divisor or more.
    rw [ExtendedMantissa.shiftRightOne, hrest]
    obtain hdigit | hdigit := Nat.mod_two_eq_zero_or_one (n / d)
    · simp [hmantissa, hdigit, hlt]
    · simp [hmantissa, hdigit, Nat.mul_add]
  · rw [ExtendedMantissa.shiftRightOne, hrest, hround, hsticky, ← Bool.decide_or, decide_eq_decide]
    obtain hdigit | hdigit := Nat.mod_two_eq_zero_or_one (n / d)
    · rw [hdigit]
      omega
    · rw [hdigit]
      omega

theorem describes_shiftRight (n k : Nat) :
    Describes ((⟨n, false, false⟩ : ExtendedMantissa) >>> k) n (2 ^ k) := by
  change Describes (Nat.repeat ExtendedMantissa.shiftRightOne k _) n (2 ^ k)
  induction k with
  | zero => exact .ofMantissa n
  | succ k ih =>
    rw [Nat.pow_succ']
    exact ih.shiftRightOne (Nat.two_pow_pos k)

/-- The rounded mantissa is off by half the divisor at most. -/
theorem Describes.roundedMantissa {em : ExtendedMantissa} {n d : Nat} (hd : 0 < d)
    (h : Describes em n d) :
    2 * (em.roundedMantissa * d) ≤ 2 * n + d ∧ 2 * n ≤ 2 * (em.roundedMantissa * d) + d := by
  obtain ⟨mantissa, roundBit, stickyBit⟩ := em
  obtain ⟨rfl, hround, hsticky⟩ := h
  have hsplit : n / d * d + n % d = n := Nat.div_add_mod' n d
  have hlt : n % d < d := Nat.mod_lt n hd
  cases roundBit with
  | false =>
    have hkept : ExtendedMantissa.roundedMantissa ⟨n / d, false, stickyBit⟩ = n / d := by
      cases stickyBit <;> rfl
    have hsmall : 2 * (n % d) < d := by simpa using hround
    rw [hkept]
    omega
  | true =>
    have hlarge : d ≤ 2 * (n % d) := by simpa using hround
    cases stickyBit with
    | false =>
      have hkept : ExtendedMantissa.roundedMantissa ⟨n / d, true, false⟩ = n / d + n / d % 2 := rfl
      have hhalf : 2 * (n % d) = d := by
        have : 2 * (n % d) ≠ 0 → 2 * (n % d) = d := by simpa using hsticky
        omega
      obtain hdigit | hdigit := Nat.mod_two_eq_zero_or_one (n / d)
      · rw [hkept, hdigit, Nat.add_zero]
        omega
      · rw [hkept, hdigit, Nat.add_mul]
        omega
    | true =>
      have hkept : ExtendedMantissa.roundedMantissa ⟨n / d, true, true⟩ = n / d + 1 := rfl
      rw [hkept, Nat.add_mul]
      omega

section Nearest

variable {n m d t : Nat}

/-- A multiple that is off by half the divisor at most is nearest of all multiples. -/
theorem natAbs_sub_le_multiple (hlow : 2 * (m * d) ≤ 2 * n + d) (hhigh : 2 * n ≤ 2 * (m * d) + d)
    (k : Nat) : ((m * d : Nat) - n : Int).natAbs ≤ ((k * d : Nat) - n : Int).natAbs := by
  obtain hlt | rfl | hgt := Nat.lt_trichotomy k m
  · have hstep : k * d + d ≤ m * d := by
      rw [← Nat.succ_mul]
      exact Nat.mul_le_mul_right d hlt
    omega
  · exact le_rfl
  · have hstep : m * d + d ≤ k * d := by
      rw [← Nat.succ_mul]
      exact Nat.mul_le_mul_right d hgt
    omega

/-- A number that is rounded to 53 digits, or not at all, is as near as any that fits. -/
theorem natAbs_sub_le_of_fitsFloat (hlow : 2 * (m * 2 ^ t) ≤ 2 * n + 2 ^ t)
    (hhigh : 2 * n ≤ 2 * (m * 2 ^ t) + 2 ^ t) (hdigits : t = 0 ∨ hiddenBit * 2 ^ t ≤ n) {f : Nat}
    (hf : FitsFloat f) : ((m * 2 ^ t : Nat) - n : Int).natAbs ≤ (f - n : Int).natAbs := by
  obtain ⟨k, j, hk, rfl⟩ := hf
  by_cases hj : t ≤ j
  · have hsplit : k * 2 ^ j = k * 2 ^ (j - t) * 2 ^ t := by
      rw [Nat.mul_assoc, ← Nat.pow_add, Nat.sub_add_cancel hj]
    rw [hsplit]
    exact natAbs_sub_le_multiple hlow hhigh _
  · -- It has fewer digits than the least of the numbers with 53 digits, which is below `n`.
    have hleast : k * 2 ^ j ≤ hiddenBit * 2 ^ t := by
      calc k * 2 ^ j ≤ 2 * hiddenBit * 2 ^ j := Nat.mul_le_mul_right _ hk.le
        _ = hiddenBit * 2 ^ (j + 1) := by rw [Nat.pow_succ']; ring
        _ ≤ hiddenBit * 2 ^ t :=
          Nat.mul_le_mul_left _ (Nat.pow_le_pow_right (by decide) (not_le.mp hj))
    have hbelow : hiddenBit * 2 ^ t ≤ n := hdigits.resolve_left (by omega)
    have hnearest := natAbs_sub_le_multiple hlow hhigh hiddenBit
    omega

end Nearest

/-! ## Units -/

/-- The number of units in a float that is finite. -/
def units : UnpackedFloat → Int
  | .finite s m e _ => s.apply (m * 2 ^ (e + 1074).toNat : Nat)
  | .zero _ | .infinity _ | .notANumber => 0

theorem natAbs_units_finite (s : Sign) {m : Nat} {e : Int} (hm : 0 < m) :
    (units (.finite s m e hm)).natAbs = m * 2 ^ (e + 1074).toNat := by
  cases s with
  | negative => exact Int.natAbs_neg _
  | positive => rfl

/-- A mantissa of 53 digits, or of fewer at the exponent of a unit. -/
structure IsFormed (m : Nat) (e : Int) : Prop where
  lt : m < 2 * hiddenBit
  le : -1074 ≤ e
  digits : hiddenBit ≤ m ∨ e = -1074

/-- The finite floats as they are stored, but with no limit to the exponent. -/
inductive IsCanonical : UnpackedFloat → Prop
  | zero (s : Sign) : IsCanonical (.zero s)
  | finite {s : Sign} {m : Nat} {e : Int} {hm : 0 < m} : IsFormed m e → IsCanonical (.finite s m e hm)

theorem IsCanonical.fitsFloat_units {u : UnpackedFloat} (h : IsCanonical u) :
    FitsFloat (units u).natAbs := by
  cases h with
  | zero s => exact fitsFloat_of_lt (by decide : 0 < 2 * hiddenBit)
  | @finite s m e hm hformed => exact ⟨m, _, hformed.lt, natAbs_units_finite s hm⟩

/-- A float that is nearest to a number of units. -/
structure IsNearest (n : Int) (u : UnpackedFloat) : Prop where
  canonical : IsCanonical u
  natAbs_le {f : Int} : FitsFloat f.natAbs → (units u - n).natAbs ≤ (f - n).natAbs

theorem IsCanonical.isNearest {u : UnpackedFloat} (h : IsCanonical u) : IsNearest (units u) u :=
  ⟨h, fun _ => by simp⟩

/-! ## Rounding -/

section Round

variable {m : Nat} {e : Int}

theorem targetExponent_totalExponent : Format.binary64.targetExponent (totalExponent m e) =
    max (m.log2 + e - 52) (-1074) := by
  rw [targetExponent_binary64, totalExponent]
  congr 1
  omega

/-- The mantissa that is shifted down to `k` digits less and rounded. -/
def shiftRounded (m k : Nat) : Nat :=
  ((⟨m, false, false⟩ : ExtendedMantissa) >>> k).roundedMantissa

theorem shiftRounded_half (m k : Nat) : 2 * (shiftRounded m k * 2 ^ k) ≤ 2 * m + 2 ^ k ∧
    2 * m ≤ 2 * (shiftRounded m k * 2 ^ k) + 2 ^ k :=
  (describes_shiftRight m k).roundedMantissa (Nat.two_pow_pos k)

theorem shiftRounded_le {k : Nat} (h : m < 2 * hiddenBit * 2 ^ k) :
    shiftRounded m k ≤ 2 * hiddenBit := by
  have hhalf := (shiftRounded_half m k).1
  have hlt : 2 * shiftRounded m k * 2 ^ k < (2 * (2 * hiddenBit) + 1) * 2 ^ k := by
    rw [Nat.mul_assoc, Nat.add_mul, Nat.mul_assoc 2 (2 * hiddenBit)]
    omega
  exact Nat.le_of_mul_le_mul_left (Nat.lt_succ_iff.mp (Nat.lt_of_mul_lt_mul_right hlt)) two_pos

theorem le_shiftRounded {k : Nat} (h : hiddenBit * 2 ^ k ≤ m) : hiddenBit ≤ shiftRounded m k := by
  have hhalf := (shiftRounded_half m k).2
  have hlt : 2 * hiddenBit * 2 ^ k < (2 * shiftRounded m k + 2) * 2 ^ k := by
    have hpos := Nat.two_pow_pos k
    rw [Nat.mul_assoc, Nat.add_mul, Nat.mul_assoc 2]
    omega
  have hdouble := Nat.lt_of_mul_lt_mul_right hlt
  omega

theorem shiftToTargetExponent_of_lt {n : Nat} {t : Int} (hlt : n < 2 * hiddenBit) (ht : -1074 ≤ t) :
    UnpackedFloat.shiftToTargetExponent .binary64 n t .exact = (⟨n, false, false⟩, t) := by
  have hlog : n.log2 ≤ 52 := by
    obtain rfl | hn := Nat.eq_zero_or_pos n
    · decide
    · exact Nat.lt_succ_iff.mp ((Nat.log2_lt hn.ne').mpr hlt)
  have hshift : (max ((n.log2 : Int) + t - 52) (-1074) - t).toNat = 0 := by omega
  simp only [UnpackedFloat.shiftToTargetExponent, UnpackedFloat.shiftToExponent,
    targetExponent_totalExponent, hshift]
  simp only [Nat.cast_zero, Int.add_zero]
  rfl

def ofMantissa (s : Sign) (m : Nat) (e : Int) : UnpackedFloat :=
  if h : m = 0 then .zero s else .finite s m e (Nat.pos_of_ne_zero h)

theorem units_ofMantissa (s : Sign) :
    units (ofMantissa s m e) = s.apply (m * 2 ^ (e + 1074).toNat : Nat) := by
  unfold ofMantissa
  split
  · next hzero => cases s <;> simp [hzero, units, Sign.apply]
  · rfl

theorem IsFormed.isCanonical (h : IsFormed m e) (s : Sign) : IsCanonical (ofMantissa s m e) := by
  unfold ofMantissa
  split
  · exact .zero s
  · exact .finite h

/-- A mantissa is shifted down and rounded, and then shifted once more if it has a digit too many. -/
theorem roundWithAccuracy_eq (s : Sign) {t : Int} (htarget : t = max (m.log2 + e - 52) (-1074))
    (hplaced : e ≤ t) (hle : shiftRounded m (t - e).toNat ≤ 2 * hiddenBit) :
    UnpackedFloat.roundWithAccuracy .binary64 s m e .exact =
      if shiftRounded m (t - e).toNat = 2 * hiddenBit then ofMantissa s hiddenBit (t + 1)
      else ofMantissa s (shiftRounded m (t - e).toNat) t := by
  have hfirst : UnpackedFloat.shiftToTargetExponent .binary64 m e .exact =
      ((⟨m, false, false⟩ : ExtendedMantissa) >>> (t - e).toNat, t) := by
    have hexponent : e + ((t - e).toNat : Int) = t := by omega
    simp only [UnpackedFloat.shiftToTargetExponent, UnpackedFloat.shiftToExponent,
      targetExponent_totalExponent, ← htarget, hexponent]
    rfl
  have hround : UnpackedFloat.roundWithAccuracy .binary64 s m e .exact =
      ofMantissa s (UnpackedFloat.shiftToTargetExponent .binary64
          (shiftRounded m (t - e).toNat) t .exact).1.mantissa
        (UnpackedFloat.shiftToTargetExponent .binary64
          (shiftRounded m (t - e).toNat) t .exact).2 := by
    unfold UnpackedFloat.roundWithAccuracy
    rw [hfirst]
    rfl
  rw [hround]
  split
  · next hcarry =>
    have hagain := shiftToTargetExponent_exact (m := hiddenBit) (k := 1) (e := t) (by decide)
      (by decide) (by omega)
    rw [hcarry, show 2 * hiddenBit = hiddenBit * 2 ^ 1 from rfl, hagain]
    rfl
  · next hfits =>
    rw [shiftToTargetExponent_of_lt (by omega) (by omega)]

/-- The mantissa is below the bound for the digits that stay, and reaches it if there are as many. -/
theorem digits_of_placed (hm : 0 < m) {t : Int} (htarget : t = max (m.log2 + e - 52) (-1074))
    (hplaced : e ≤ t) : m < 2 * hiddenBit * 2 ^ (t - e).toNat ∧
      (t = -1074 ∨ hiddenBit * 2 ^ (t - e).toNat ≤ m) := by
  constructor
  · have hlog : m < 2 ^ (m.log2 + 1) := Nat.lt_log2_self
    have hpow : 2 * hiddenBit * 2 ^ (t - e).toNat = 2 ^ (53 + (t - e).toNat) := by
      rw [Nat.pow_add]
      rfl
    rw [hpow]
    exact hlog.trans_le (Nat.pow_le_pow_right (by decide) (by omega))
  · refine or_iff_not_imp_left.mpr fun hne => ?_
    have hlog : 2 ^ m.log2 ≤ m := Nat.log2_self_le hm.ne'
    have hpow : hiddenBit * 2 ^ (t - e).toNat = 2 ^ (52 + (t - e).toNat) := by
      rw [Nat.pow_add]
      rfl
    rw [hpow]
    exact (Nat.pow_le_pow_right (by decide) (by omega)).trans hlog

theorem natAbs_apply_sub_apply (s : Sign) (a b : Int) :
    (s.apply a - s.apply b).natAbs = (a - b).natAbs := by
  cases s with
  | negative =>
    simp only [Sign.apply]
    omega
  | positive => rfl

theorem natAbs_natAbs_sub_le (s : Sign) (f : Int) (n : Nat) :
    ((f.natAbs : Int) - n).natAbs ≤ (f - s.apply n).natAbs := by
  cases s <;> simp only [Sign.apply] <;> omega

/-- A mantissa whose exponent is not above that of its last digit is rounded to the nearest float. -/
theorem isNearest_roundWithAccuracy (s : Sign) (hm : 0 < m) (he : -1074 ≤ e)
    (hplaced : e ≤ max (m.log2 + e - 52) (-1074)) :
    IsNearest (s.apply (m * 2 ^ (e + 1074).toNat : Nat))
      (UnpackedFloat.roundWithAccuracy .binary64 s m e .exact) := by
  obtain ⟨t, htarget⟩ : ∃ t, t = max ((m.log2 : Int) + e - 52) (-1074) := ⟨_, rfl⟩
  rw [← htarget] at hplaced
  obtain ⟨hbelow, habove⟩ := digits_of_placed hm htarget hplaced
  have hle := shiftRounded_le hbelow
  have hdigits := habove.symm.imp_left le_shiftRounded
  have heq := roundWithAccuracy_eq s htarget hplaced hle
  obtain ⟨k, hk⟩ : ∃ k, k = (t - e).toNat := ⟨_, rfl⟩
  obtain ⟨j, hj⟩ : ∃ j, j = (e + 1074).toNat := ⟨_, rfl⟩
  have hkj : (t + 1074).toNat = k + j := by omega
  rw [← hk] at heq habove hle hdigits
  have hunits : units (UnpackedFloat.roundWithAccuracy .binary64 s m e .exact) =
      s.apply (shiftRounded m k * 2 ^ (k + j) : Nat) := by
    rw [heq, ← hkj]
    split
    · next hcarry =>
      have hexponent : (t + 1 + 1074).toNat = (t + 1074).toNat + 1 := by omega
      rw [units_ofMantissa, hcarry, hexponent, Nat.pow_succ']
      congr 2
      ring
    · exact units_ofMantissa s
  constructor
  · rw [heq]
    split
    · exact IsFormed.isCanonical ⟨by decide, by omega, .inl le_rfl⟩ s
    · exact IsFormed.isCanonical ⟨by omega, by omega, hdigits⟩ s
  · intro f hf
    obtain ⟨hlow, hhigh⟩ := shiftRounded_half m k
    have hpow : 2 ^ (k + j) = 2 ^ k * 2 ^ j := Nat.pow_add 2 k j
    have hlow' : 2 * (shiftRounded m k * 2 ^ (k + j)) ≤ 2 * (m * 2 ^ j) + 2 ^ (k + j) := by
      rw [hpow]
      linarith only [Nat.mul_le_mul_right (2 ^ j) hlow]
    have hhigh' : 2 * (m * 2 ^ j) ≤ 2 * (shiftRounded m k * 2 ^ (k + j)) + 2 ^ (k + j) := by
      rw [hpow]
      linarith only [Nat.mul_le_mul_right (2 ^ j) hhigh]
    have hdigits' : k + j = 0 ∨ hiddenBit * 2 ^ (k + j) ≤ m * 2 ^ j := by
      refine habove.imp (fun hleast => by omega) fun hle => ?_
      rw [hpow, ← Nat.mul_assoc]
      exact Nat.mul_le_mul_right _ hle
    rw [hunits, ← hj, natAbs_apply_sub_apply]
    exact (natAbs_sub_le_of_fitsFloat hlow' hhigh' hdigits' hf).trans (natAbs_natAbs_sub_le s f _)

/-- Any number of units is rounded to the nearest float. -/
theorem isNearest_round (s : Sign) (hm : 0 < m) (he : -1074 ≤ e) :
    IsNearest (s.apply (m * 2 ^ (e + 1074).toNat : Nat)) (UnpackedFloat.round .binary64 s m e) := by
  obtain ⟨k, hk⟩ : ∃ k, k = (e - max ((m.log2 : Int) + e - 52) (-1074)).toNat := ⟨_, rfl⟩
  have hround : UnpackedFloat.round .binary64 s m e =
      UnpackedFloat.roundWithAccuracy .binary64 s (m * 2 ^ k) (e - k) .exact := by
    simp only [UnpackedFloat.round, UnpackedFloat.decreaseExponent, targetExponent_totalExponent, ← hk,
      Nat.shiftLeft_eq]
  have hunits : m * 2 ^ (e + 1074).toNat = m * 2 ^ k * 2 ^ (e - k + 1074).toNat := by
    rw [Nat.mul_assoc, ← Nat.pow_add]
    congr 2
    omega
  rw [hround, hunits]
  refine isNearest_roundWithAccuracy s (Nat.mul_pos hm (Nat.two_pow_pos k)) (by omega) ?_
  rw [log2_mul_two_pow hm]
  omega

theorem isNearest_normalize {n : Int} (he : -1074 ≤ e) (zeroSign : Sign) :
    IsNearest (n * 2 ^ (e + 1074).toNat) (UnpackedFloat.normalize .binary64 n e zeroSign) := by
  unfold UnpackedFloat.normalize
  split
  · next hlt =>
    have hneg : n < 0 := compare_lt_iff_lt.mp hlt
    have hround := isNearest_round .negative (m := (-n).toNat) (by omega) he
    rwa [Nat.cast_mul, Int.toNat_of_nonneg (by omega), Sign.apply, Int.neg_mul, Int.neg_neg,
      Nat.cast_pow] at hround
  · next heq =>
    rw [compare_eq_iff_eq.mp heq, Int.zero_mul]
    exact (IsCanonical.zero zeroSign).isNearest
  · next hgt =>
    have hpos : 0 < n := compare_gt_iff_gt.mp hgt
    have hround := isNearest_round .positive (m := n.toNat) (by omega) he
    rwa [Nat.cast_mul, Int.toNat_of_nonneg hpos.le, Nat.cast_pow] at hround

end Round

theorem units_shiftLeft (s : Sign) (m : Nat) {e f : Int} (hf : -1074 ≤ f) (hfe : f ≤ e) :
    s.apply (m <<< (e - f).toNat : Nat) * 2 ^ (f + 1074).toNat =
      s.apply (m * 2 ^ (e + 1074).toNat : Nat) := by
  have hexponent : (e + 1074).toNat = (e - f).toNat + (f + 1074).toNat := by omega
  have hshift : ((m <<< (e - f).toNat : Nat) : Int) * 2 ^ (f + 1074).toNat =
      (m * 2 ^ (e + 1074).toNat : Nat) := by
    rw [Nat.shiftLeft_eq, hexponent, Nat.pow_add, ← Nat.mul_assoc]
    push_cast
    rfl
  cases s with
  | negative => exact (Int.neg_mul _ _).trans (congrArg Neg.neg hshift)
  | positive => exact hshift

/-- A sum of floats that are finite is the nearest float to the exact sum. -/
theorem isNearest_add {a b : UnpackedFloat} (ha : IsCanonical a) (hb : IsCanonical b) :
    IsNearest (units a + units b) (a.add .binary64 b) := by
  cases ha with
  | zero s =>
    cases hb with
    | zero t =>
      have hsum : ∃ r, UnpackedFloat.add .binary64 (.zero s) (.zero t) = .zero r := by
        rw [UnpackedFloat.add]
        split
        · exact ⟨_, rfl⟩
        · exact ⟨_, rfl⟩
      obtain ⟨r, hr⟩ := hsum
      rw [hr]
      exact (IsCanonical.zero r).isNearest
    | @finite t m e hm hformed =>
      have hsum : IsCanonical (.finite t m e hm) := .finite hformed
      simpa [units, UnpackedFloat.add] using hsum.isNearest
  | @finite s m e hm hformed =>
    cases hb with
    | zero t =>
      have hsum : IsCanonical (.finite s m e hm) := .finite hformed
      simpa [units, UnpackedFloat.add] using hsum.isNearest
    | @finite t n f hn hformed' =>
      have hmin : -1074 ≤ min e f := le_min hformed.le hformed'.le
      have hnearest := isNearest_normalize (e := min e f)
        (n := s.apply (m <<< (e - min e f).toNat : Nat) + t.apply (n <<< (f - min e f).toNat : Nat))
        hmin .positive
      rw [Int.add_mul, units_shiftLeft s m hmin (min_le_left e f),
        units_shiftLeft t n hmin (min_le_right e f)] at hnearest
      exact hnearest

end QualityScript.Number
