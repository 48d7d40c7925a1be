import QualityScript.Proofs.Number.Order
import QualityScript.Proofs.Number.Rounding

/-!
# Sums of floats

The order of floats is the order of their units, and a float whose exponent has become too large is
stored as an infinity, which keeps the order. So adding to a float is monotone, and adding a number above
zero leads to no smaller float.
-/

namespace QualityScript.Number

open Float.Model
open Float.Model.UnpackedFloat (Sign)

section Order

variable {a b : UnpackedFloat}

theorem mul_two_pow_lt {m n : Nat} {e f : Int} (hm : IsFormed m e) (hn : IsFormed n f) (hef : e < f) :
    m * 2 ^ (e + 1074).toNat < n * 2 ^ (f + 1074).toNat := by
  have hpow : 2 * 2 ^ (e + 1074).toNat ≤ 2 ^ (f + 1074).toNat := by
    rw [← Nat.pow_succ']
    exact Nat.pow_le_pow_right (by decide) (by have := hm.le; omega)
  have hnormal : hiddenBit ≤ n := hn.digits.resolve_right (by have := hm.le; omega)
  calc m * 2 ^ (e + 1074).toNat < 2 * hiddenBit * 2 ^ (e + 1074).toNat :=
        Nat.mul_lt_mul_of_pos_right hm.lt (Nat.two_pow_pos _)
    _ = hiddenBit * (2 * 2 ^ (e + 1074).toNat) := by ring
    _ ≤ n * 2 ^ (f + 1074).toNat := Nat.mul_le_mul hnormal hpow

theorem mul_two_pow_lt_of_lex {m n : Nat} {e f : Int} (hm : IsFormed m e) (hn : IsFormed n f)
    (h : e < f ∨ e = f ∧ m < n) : m * 2 ^ (e + 1074).toNat < n * 2 ^ (f + 1074).toNat := by
  obtain hef | ⟨rfl, hmn⟩ := h
  · exact mul_two_pow_lt hm hn hef
  · exact Nat.mul_lt_mul_of_pos_right hmn (Nat.two_pow_pos _)

theorem units_lt_of_orderKey_lt (ha : IsCanonical a) (hb : IsCanonical b)
    (h : orderKey a < orderKey b) : units a < units b := by
  have hpositive {m : Nat} (hm : 0 < m) (e : Int) : 0 < m * 2 ^ (e + 1074).toNat :=
    Nat.mul_pos hm (Nat.two_pow_pos _)
  cases ha with
  | zero s =>
    cases hb with
    | zero t => exact absurd h (lt_irrefl _)
    | @finite t n f hn hformed =>
      cases t with
      | negative => simp [orderKey, Prod.Lex.toLex_lt_toLex] at h
      | positive =>
        have := hpositive hn f
        simp only [units, Sign.apply]
        omega
  | @finite s m e hm hformed =>
    cases hb with
    | zero t =>
      cases s with
      | negative =>
        have := hpositive hm e
        simp only [units, Sign.apply]
        omega
      | positive => simp [orderKey, Prod.Lex.toLex_lt_toLex] at h
    | @finite t n f hn hformed' =>
      have hme := hpositive hm e
      have hnf := hpositive hn f
      cases s with
      | negative =>
        cases t with
        | negative =>
          have hlex : f < e ∨ e = f ∧ n < m := by
            simpa [orderKey, Prod.Lex.toLex_lt_toLex] using h
          have := mul_two_pow_lt_of_lex hformed' hformed (hlex.imp_right (.imp_left .symm))
          simp only [units, Sign.apply]
          omega
        | positive =>
          simp only [units, Sign.apply]
          omega
      | positive =>
        cases t with
        | negative => simp [orderKey, Prod.Lex.toLex_lt_toLex] at h
        | positive =>
          have hlex : e < f ∨ e = f ∧ m < n := by
            simpa [orderKey, Prod.Lex.toLex_lt_toLex] using h
          have := mul_two_pow_lt_of_lex hformed hformed' hlex
          simp only [units, Sign.apply]
          omega

/-- Floats with the same key are the same, zeros with another sign apart. -/
theorem eq_or_zero_of_orderKey_eq (ha : IsCanonical a) (hb : IsCanonical b)
    (h : orderKey a = orderKey b) : a = b ∨ (∃ s, a = .zero s) ∧ ∃ t, b = .zero t := by
  cases ha with
  | zero s =>
    cases hb with
    | zero t => exact .inr ⟨⟨s, rfl⟩, t, rfl⟩
    | @finite t => cases t <;> simp [orderKey] at h
  | @finite s =>
    cases hb with
    | zero t => cases s <;> simp [orderKey] at h
    | @finite t => cases s <;> cases t <;> simp_all [orderKey]

theorem units_eq_of_orderKey_eq (ha : IsCanonical a) (hb : IsCanonical b)
    (h : orderKey a = orderKey b) : units a = units b := by
  obtain rfl | ⟨⟨s, rfl⟩, t, rfl⟩ := eq_or_zero_of_orderKey_eq ha hb h
  · rfl
  · rfl

/-- Floats are in the order of their units. -/
theorem orderKey_le_iff (ha : IsCanonical a) (hb : IsCanonical b) :
    orderKey a ≤ orderKey b ↔ units a ≤ units b := by
  constructor
  · intro h
    obtain hlt | heq := h.lt_or_eq
    · exact (units_lt_of_orderKey_lt ha hb hlt).le
    · exact (units_eq_of_orderKey_eq ha hb heq).le
  · intro h
    by_contra hgt
    exact absurd (units_lt_of_orderKey_lt hb ha (not_le.mp hgt)) (not_lt.mpr h)

end Order

/-! ## What is stored -/

/-- The infinities and the finite floats. -/
inductive IsNumber : UnpackedFloat → Prop
  | infinity (s : Sign) : IsNumber (.infinity s)
  | finite {u : UnpackedFloat} : IsCanonical u → IsNumber u

theorem isNumber_unpack (b : BitVec Format.binary64.numBits) :
    UnpackedFloat.unpack .binary64 b = .notANumber ∨ IsNumber (UnpackedFloat.unpack .binary64 b) := by
  have hmantissa := (UnpackedFloat.unpackMantissa b).isLt
  have hbias : ((Format.binary64.exponentBias : Int) +
      Format.binary64.mantissaBitsWithoutImplicit) = 1075 := rfl
  unfold UnpackedFloat.unpack
  simp only [hbias]
  split
  · split
    · exact .inr (.infinity _)
    · exact .inl rfl
  refine .inr (.finite ?_)
  split
  · next hleast =>
    have hexponent : ((UnpackedFloat.unpackExponent b).toNat : Int) - 1075 + 1 = -1074 := by
      rw [hleast]
      rfl
    split
    · exact .zero _
    · exact .finite ⟨hmantissa.trans (by decide), hexponent.ge, .inr hexponent⟩
  · next hnormal =>
    have hpos : (UnpackedFloat.unpackExponent b).toNat ≠ 0 :=
      fun hzero => hnormal (BitVec.eq_of_toNat_eq hzero)
    refine .finite ⟨?_, by omega, .inl ?_⟩
    · rw [toNat_one_append, Nat.two_mul]
      exact Nat.add_lt_add_left hmantissa _
    · rw [toNat_one_append]
      exact Nat.le_add_right _ _

/-- The float that is read back where one is stored: an infinity if its exponent is too large. -/
def stored : UnpackedFloat → UnpackedFloat
  | .finite s m e hm => if 971 < e then .infinity s else .finite s m e hm
  | u => u

theorem unpack_packedInfinity (s : Sign) :
    UnpackedFloat.unpack .binary64 (UnpackedFloat.packedInfinity .binary64 s) = .infinity s := by
  cases s <;> rfl

theorem unpack_packedZero (s : Sign) :
    UnpackedFloat.unpack .binary64 (UnpackedFloat.packedZero .binary64 s) = .zero s := by
  cases s <;> rfl

theorem unpack_pack_subnormal {s : Sign} {m : Nat} (hm : 0 < m) (hlt : m < hiddenBit) :
    UnpackedFloat.unpack .binary64 (UnpackedFloat.pack .binary64 (.finite s m (-1074) hm)) =
      .finite s m (-1074) hm := by
  have hlog : m.log2 < 52 := (Nat.log2_lt hm.ne').mpr hlt
  have hpack : UnpackedFloat.pack .binary64 (.finite s m (-1074) hm) =
      UnpackedFloat.packComponents .binary64 s 0 (.ofNat 52 m) := by
    have hbits : Format.binary64.mantissaBits = 53 := rfl
    simp only [UnpackedFloat.pack, hbits]
    rw [if_neg (by decide), if_neg (by omega)]
    rfl
  have hmantissa : (BitVec.ofNat 52 m).toNat = m := by
    rw [BitVec.toNat_ofNat]
    exact Nat.mod_eq_of_lt hlt
  have hnonzero : BitVec.ofNat 52 m ≠ 0#52 := by
    intro heq
    rw [heq] at hmantissa
    exact hm.ne hmantissa
  have hfinite : (0 : BitVec 11) ≠ -1#11 := by decide
  rw [hpack, UnpackedFloat.unpack]
  simp only [UnpackedFloat.unpackMantissa_packComponents, UnpackedFloat.unpackExponent_packComponents,
    UnpackedFloat.unpackSign_packComponents, UnpackedFloat.Sign.ofBitVec_toBitVec, hfinite, hnonzero,
    if_false, dite_false, hmantissa]
  rfl

theorem unpack_pack {u : UnpackedFloat} (h : IsNumber u) :
    UnpackedFloat.unpack .binary64 (UnpackedFloat.pack .binary64 u) = stored u := by
  cases h with
  | infinity s => exact unpack_packedInfinity s
  | finite h =>
    cases h with
    | zero s => exact unpack_packedZero s
    | @finite s m e hm hformed =>
      rw [stored]
      split
      · next hlarge =>
        have hbiased : 2 ^ 11 ≤ (e + (1023 : Nat) + (52 : Nat)).toNat + 1 := by omega
        have hpack : UnpackedFloat.pack .binary64 (.finite s m e hm) =
            UnpackedFloat.packedInfinity .binary64 s := if_pos hbiased
        rw [hpack, unpack_packedInfinity]
      · next hsmall =>
        by_cases hnormal : hiddenBit ≤ m
        · have hlog := (log2_eq_iff_normal hm).mpr ⟨hnormal, hformed.lt⟩
          exact unpack_pack_normal hm hlog hformed.le (not_lt.mp hsmall)
        · obtain rfl := hformed.digits.resolve_left hnormal
          exact unpack_pack_subnormal hm (not_le.mp hnormal)

section Stored

variable {a b : UnpackedFloat}

theorem negative_infinity_le (u : UnpackedFloat) :
    orderKey (.infinity .negative) ≤ orderKey u := by
  rcases u with (_ | _) | _ | _ | ⟨_ | _, m, e, hm⟩ <;> simp [orderKey, Prod.Lex.toLex_le_toLex]

theorem le_positive_infinity (u : UnpackedFloat) :
    orderKey u ≤ orderKey (.infinity .positive) := by
  rcases u with (_ | _) | _ | _ | ⟨_ | _, m, e, hm⟩ <;> simp [orderKey, Prod.Lex.toLex_le_toLex]

theorem IsCanonical.orderKey_ne_infinity (h : IsCanonical a) (s : Sign) :
    orderKey a ≠ orderKey (.infinity s) := by
  cases h with
  | zero t => cases s <;> simp [orderKey]
  | @finite t => cases s <;> cases t <;> simp [orderKey]

theorem orderKey_stored_finite (s : Sign) {m : Nat} {e : Int} (hm : 0 < m) :
    orderKey (stored (.finite s m e hm)) =
      if 971 < e then orderKey (.infinity s) else orderKey (.finite s m e hm) := by
  rw [stored, apply_ite orderKey]

/-- Storing floats keeps their order: where an exponent is too large, it is so from there to the end of
the line. -/
theorem orderKey_stored_le (ha : IsCanonical a) (hb : IsCanonical b)
    (h : orderKey a ≤ orderKey b) : orderKey (stored a) ≤ orderKey (stored b) := by
  cases ha with
  | zero s =>
    cases hb with
    | zero t => exact h
    | @finite t n f hn =>
      rw [orderKey_stored_finite]
      split
      · cases t with
        | negative => exact absurd h (by simp [orderKey, Prod.Lex.toLex_le_toLex])
        | positive => exact le_positive_infinity _
      · exact h
  | @finite s m e hm =>
    cases hb with
    | zero t =>
      rw [orderKey_stored_finite]
      split
      · cases s with
        | negative => exact negative_infinity_le _
        | positive => exact absurd h (by simp [orderKey, Prod.Lex.toLex_le_toLex])
      · exact h
    | @finite t n f hn =>
      cases s with
      | negative =>
        rw [orderKey_stored_finite .negative]
        by_cases he : 971 < e
        · rw [if_pos he]
          exact negative_infinity_le _
        rw [if_neg he, orderKey_stored_finite]
        cases t with
        | negative =>
          have hlex : f < e ∨ e = f ∧ n ≤ m := by
            simpa [orderKey, Prod.Lex.toLex_le_toLex] using h
          rw [if_neg (by omega)]
          exact h
        | positive =>
          split
          · exact le_positive_infinity _
          · exact h
      | positive =>
        cases t with
        | negative => exact absurd h (by simp [orderKey, Prod.Lex.toLex_le_toLex])
        | positive =>
          rw [orderKey_stored_finite .positive hn]
          by_cases hf : 971 < f
          · rw [if_pos hf]
            exact le_positive_infinity _
          · have hlex : e < f ∨ e = f ∧ m ≤ n := by
              simpa [orderKey, Prod.Lex.toLex_le_toLex] using h
            rw [if_neg hf, orderKey_stored_finite, if_neg (by omega)]
            exact h

/-- A float that is stored as itself stays below one that is larger. -/
theorem orderKey_stored_lt (ha : IsCanonical a) (hb : IsCanonical b) (hstored : stored a = a)
    (h : orderKey a < orderKey b) : orderKey a < orderKey (stored b) := by
  have hle := orderKey_stored_le ha hb h.le
  rw [hstored] at hle
  refine hle.lt_of_ne ?_
  cases hb with
  | zero => exact h.ne
  | @finite s m e hm =>
    rw [orderKey_stored_finite]
    split
    · exact ha.orderKey_ne_infinity s
    · exact h.ne

end Stored

/-! ## Sums of unpacked floats -/

section Unpacked

variable {a b c : UnpackedFloat}

theorem IsNumber.add_infinity {s : Sign} (h : IsNumber a)
    (hne : a.add .binary64 (.infinity s) ≠ .notANumber) :
    a.add .binary64 (.infinity s) = .infinity s := by
  cases h with
  | infinity t =>
    cases s <;> cases t
    · rfl
    · exact absurd rfl hne
    · exact absurd rfl hne
    · rfl
  | finite h =>
    cases h with
    | zero t => rfl
    | finite => rfl

theorem IsCanonical.infinity_add (h : IsCanonical c) (s : Sign) :
    UnpackedFloat.add .binary64 (.infinity s) c = .infinity s := by
  cases h with
  | zero t => rfl
  | finite => rfl

theorem units_zero_add (s : Sign) (h : IsCanonical c) :
    units (UnpackedFloat.add .binary64 (.zero s) c) = units c := by
  have hnear := (isNearest_add (.zero s) h).natAbs_le h.fitsFloat_units
  have hzero : units (.zero s) = 0 := rfl
  omega

/-- Adding the same to a larger float gives no fewer units. -/
theorem units_add_le (ha : IsCanonical a) (hb : IsCanonical b) (hc : IsCanonical c)
    (h : orderKey a ≤ orderKey b) : units (a.add .binary64 c) ≤ units (b.add .binary64 c) := by
  obtain hlt | heq := h.lt_or_eq
  · have hab := units_lt_of_orderKey_lt ha hb hlt
    have hsum := isNearest_add ha hc
    have hsum' := isNearest_add hb hc
    have hnear := hsum.natAbs_le hsum'.canonical.fitsFloat_units
    have hnear' := hsum'.natAbs_le hsum.canonical.fitsFloat_units
    omega
  · obtain rfl | ⟨⟨s, rfl⟩, t, rfl⟩ := eq_or_zero_of_orderKey_eq ha hb heq
    · exact le_rfl
    · rw [units_zero_add s hc, units_zero_add t hc]

theorem fitsFloat_mul_two_pow {k : Nat} (h : k ≤ 2 * hiddenBit) (j : Nat) : FitsFloat (k * 2 ^ j) := by
  obtain hlt | rfl := h.lt_or_eq
  · exact ⟨k, j, hlt, rfl⟩
  · refine ⟨hiddenBit, j + 1, by decide, ?_⟩
    rw [Nat.pow_succ']
    ring

/-- The next number above a float that differs in the last digit fits as well. -/
theorem fitsFloat_next (s : Sign) {m : Nat} {e : Int} (hm : 0 < m) (h : IsFormed m e) :
    FitsFloat (units (.finite s m e hm) + (2 ^ (e + 1074).toNat : Nat)).natAbs := by
  cases s with
  | negative =>
    obtain ⟨k, rfl⟩ : ∃ k, m = k + 1 := Nat.exists_eq_add_of_le' hm
    have hnext : (units (.finite .negative (k + 1) e hm) + (2 ^ (e + 1074).toNat : Nat)).natAbs =
        k * 2 ^ (e + 1074).toNat := by
      rw [units, Sign.apply, Nat.succ_mul]
      omega
    rw [hnext]
    exact fitsFloat_mul_two_pow (Nat.le_of_lt (Nat.lt_of_succ_lt h.lt)) _
  | positive =>
    have hnext : (units (.finite .positive m e hm) + (2 ^ (e + 1074).toNat : Nat)).natAbs =
        (m + 1) * 2 ^ (e + 1074).toNat := by
      rw [Nat.succ_mul]
      exact Int.natAbs_natCast (m * 2 ^ (e + 1074).toNat + 2 ^ (e + 1074).toNat)
    rw [hnext]
    exact fitsFloat_mul_two_pow h.lt _

/-- Below `2 ^ 53` times of what is added the floats are dense enough for the sum to be larger. -/
theorem units_lt_add (ha : IsCanonical a) (hc : IsCanonical c)
    (h : (units a).natAbs < 2 * hiddenBit * units c) : units a < units (a.add .binary64 c) := by
  have hnear {f : Int} (hf : FitsFloat f.natAbs) := (isNearest_add ha hc).natAbs_le hf
  cases ha with
  | zero s =>
    rw [units_zero_add s hc]
    change (0 : Int) < 2 * hiddenBit * units c at h
    exact Int.pos_of_mul_pos_right h (by decide)
  | @finite s m e hm hformed =>
    -- The next float above is nearer to the exact sum than the float that it is above.
    have hnext := hnear (fitsFloat_next s hm hformed)
    have hgap : ((2 ^ (e + 1074).toNat : Nat) : Int) < 2 * units c := by
      rw [natAbs_units_finite] at h
      change _ < 2 * 4503599627370496 * units c at h
      obtain hnormal | rfl := hformed.digits
      · have hle : 4503599627370496 * 2 ^ (e + 1074).toNat ≤ m * 2 ^ (e + 1074).toNat :=
          Nat.mul_le_mul_right _ hnormal
        generalize 2 ^ (e + 1074).toNat = g at h hle ⊢
        omega
      · change (1 : Int) < 2 * units c
        omega
    have hpos := Nat.two_pow_pos (e + 1074).toNat
    omega

/-- Adding the same to a larger number gives no smaller one. -/
theorem orderKey_add_le (ha : IsNumber a) (hb : IsNumber b) (hc : IsNumber c)
    (h : orderKey a ≤ orderKey b) (hac : a.add .binary64 c ≠ .notANumber)
    (hbc : b.add .binary64 c ≠ .notANumber) :
    orderKey (stored (a.add .binary64 c)) ≤ orderKey (stored (b.add .binary64 c)) := by
  cases hc with
  | infinity s =>
    rw [ha.add_infinity hac, hb.add_infinity hbc]
  | finite hc =>
    cases ha with
    | infinity s =>
      rw [hc.infinity_add s]
      cases s with
      | negative => exact negative_infinity_le _
      | positive =>
        cases hb with
        | infinity t =>
          cases t with
          | negative => exact absurd h (by simp [orderKey, Prod.Lex.toLex_le_toLex])
          | positive => rw [hc.infinity_add]
        | finite hb =>
          exact absurd ((le_positive_infinity b).antisymm h) (hb.orderKey_ne_infinity .positive)
    | finite ha =>
      cases hb with
      | infinity t =>
        rw [hc.infinity_add t]
        cases t with
        | negative =>
          exact absurd (h.antisymm (negative_infinity_le a)) (ha.orderKey_ne_infinity .negative)
        | positive => exact le_positive_infinity _
      | finite hb =>
        have hsum := (isNearest_add ha hc).canonical
        have hsum' := (isNearest_add hb hc).canonical
        exact orderKey_stored_le hsum hsum'
          ((orderKey_le_iff hsum hsum').mpr (units_add_le ha hb hc h))

/-- Adding more than zero leads to no smaller number. -/
theorem orderKey_le_add (ha : IsNumber a) (hstored : stored a = a) (hc : IsNumber c)
    (hpos : orderKey (.zero .positive) < orderKey c) (hac : a.add .binary64 c ≠ .notANumber) :
    orderKey a ≤ orderKey (stored (a.add .binary64 c)) := by
  cases hc with
  | infinity s =>
    rw [ha.add_infinity hac]
    cases s with
    | negative => exact absurd hpos (by simp [orderKey, Prod.Lex.toLex_lt_toLex])
    | positive => exact le_positive_infinity a
  | finite hc =>
    cases ha with
    | infinity s =>
      rw [hc.infinity_add s]
      exact le_rfl
    | finite ha =>
      have hunits : 0 < units c := units_lt_of_orderKey_lt (.zero .positive) hc hpos
      have hsum := isNearest_add ha hc
      have hnear := hsum.natAbs_le ha.fitsFloat_units
      have hle := orderKey_stored_le ha hsum.canonical
        ((orderKey_le_iff ha hsum.canonical).mpr (by omega))
      rwa [hstored] at hle

theorem IsNumber.add (ha : IsNumber a) (hc : IsNumber c) (hac : a.add .binary64 c ≠ .notANumber) :
    IsNumber (a.add .binary64 c) := by
  cases hc with
  | infinity s =>
    rw [ha.add_infinity hac]
    exact .infinity s
  | finite hc =>
    cases ha with
    | infinity s =>
      rw [hc.infinity_add s]
      exact .infinity s
    | finite ha => exact .finite (isNearest_add ha hc).canonical

theorem IsCanonical.ne_notANumber (h : IsCanonical a) : a ≠ .notANumber := by
  rintro rfl
  cases h

/-- To a larger number the same can be added, if it is more than zero. -/
theorem add_ne_notANumber (ha : IsNumber a) (hb : IsNumber b) (hc : IsNumber c)
    (hpos : orderKey (.zero .positive) < orderKey c) (h : orderKey a ≤ orderKey b)
    (hac : a.add .binary64 c ≠ .notANumber) : b.add .binary64 c ≠ .notANumber := by
  cases hb with
  | infinity t =>
    cases hc with
    | infinity s =>
      cases s with
      | negative => exact absurd hpos (by simp [orderKey, Prod.Lex.toLex_lt_toLex])
      | positive =>
        cases t with
        | positive => simp [UnpackedFloat.add]
        | negative =>
          have hbottom := h.antisymm (negative_infinity_le a)
          cases ha with
          | infinity r =>
            cases r with
            | negative => exact absurd rfl hac
            | positive => simp [orderKey] at hbottom
          | finite ha => exact absurd hbottom (ha.orderKey_ne_infinity .negative)
    | finite hc =>
      rw [hc.infinity_add]
      simp
  | finite hb =>
    cases hc with
    | infinity s => cases hb <;> simp [UnpackedFloat.add]
    | finite hc => exact (isNearest_add hb hc).canonical.ne_notANumber

end Unpacked

/-! ## Sums of floats -/

section Floats

variable {x y d : Float}

theorem isNumber_of_ne_nan (h : x ≠ Float.nan) : IsNumber x.toModel.unpack := by
  refine (isNumber_unpack _).resolve_left ?_
  exact mt unpack_eq_notANumber_iff.mp h

theorem stored_unpack (h : x ≠ Float.nan) : stored x.toModel.unpack = x.toModel.unpack := by
  rw [← unpack_pack (isNumber_of_ne_nan h)]
  exact congrArg (UnpackedFloat.unpack .binary64)
    (UnpackedFloat.pack_unpack_of_valid x.toModel.valid)

theorem add_eq_nan_iff : x + y = Float.nan ↔
    x.toModel.unpack.add .binary64 y.toModel.unpack = .notANumber :=
  ofModel_pack_eq_nan_iff

theorem ne_nan_of_add_ne_nan (h : x + y ≠ Float.nan) : x ≠ Float.nan ∧ y ≠ Float.nan := by
  rw [ne_eq, add_eq_nan_iff] at h
  constructor
  · rintro rfl
    exact h rfl
  · rintro rfl
    have hnan : (Float.nan).toModel.unpack = .notANumber := unpack_eq_notANumber_iff.mpr rfl
    rw [hnan] at h
    cases hx : x.toModel.unpack <;> simp [hx, UnpackedFloat.add] at h

theorem floatKey_add (h : x + y ≠ Float.nan) :
    floatKey (x + y) = orderKey (stored (x.toModel.unpack.add .binary64 y.toModel.unpack)) := by
  obtain ⟨hx, hy⟩ := ne_nan_of_add_ne_nan h
  rw [ne_eq, add_eq_nan_iff] at h
  exact congrArg orderKey (unpack_pack ((isNumber_of_ne_nan hx).add (isNumber_of_ne_nan hy) h))

theorem floatKey_zero : floatKey 0 = orderKey (.zero .positive) := by
  decide +kernel

theorem floatLe_refl (h : x ≠ Float.nan) : x ≤ x := le_iff_floatKey.mpr ⟨⟨h, h⟩, le_rfl⟩

theorem floatLe_trans {z : Float} (h : x ≤ y) (h' : y ≤ z) : x ≤ z := by
  obtain ⟨⟨hx, -⟩, hxy⟩ := le_iff_floatKey.mp h
  obtain ⟨⟨-, hz⟩, hyz⟩ := le_iff_floatKey.mp h'
  exact le_iff_floatKey.mpr ⟨⟨hx, hz⟩, hxy.trans hyz⟩

theorem floatLe_of_not_lt (hx : x ≠ Float.nan) (hy : y ≠ Float.nan) (h : ¬ y < x) : x ≤ y :=
  le_iff_floatKey.mpr ⟨⟨hx, hy⟩, not_lt.mp fun hlt => h (lt_iff_floatKey.mpr ⟨⟨hy, hx⟩, hlt⟩)⟩

theorem floatLt_of_not_le (hx : x ≠ Float.nan) (hy : y ≠ Float.nan) (h : ¬ y ≤ x) : x < y :=
  lt_iff_floatKey.mpr ⟨⟨hx, hy⟩, not_le.mp fun hle => h (le_iff_floatKey.mpr ⟨⟨hy, hx⟩, hle⟩)⟩

/-- Between finite floats there are finite floats only. -/
theorem isCanonical_of_le_of_le {z : Float} (hx : IsCanonical x.toModel.unpack)
    (hz : IsCanonical z.toModel.unpack) (hxy : x ≤ y) (hyz : y ≤ z) :
    IsCanonical y.toModel.unpack := by
  obtain ⟨⟨-, hy⟩, hlow⟩ := le_iff_floatKey.mp hxy
  obtain ⟨-, hhigh⟩ := le_iff_floatKey.mp hyz
  have hnumber := isNumber_of_ne_nan hy
  unfold floatKey at hlow hhigh
  generalize y.toModel.unpack = u at hnumber hlow hhigh ⊢
  cases hnumber with
  | infinity s =>
    cases s with
    | negative =>
      exact absurd (hlow.antisymm (negative_infinity_le _)) (hx.orderKey_ne_infinity .negative)
    | positive =>
      exact absurd ((le_positive_infinity _).antisymm hhigh) (hz.orderKey_ne_infinity .positive)
  | finite h => exact h

/-- No row of floats climbs for ever, since there are finitely many. -/
theorem not_forall_lt_succ (f : Nat → Float) : ¬ ∀ n, f n < f (n + 1) := by
  intro h
  have hkey : StrictMono fun n => floatKey (f n) :=
    strictMono_nat_of_lt_succ fun n => (lt_iff_floatKey.mp (h n)).2
  have hinjective : Function.Injective fun n => (f n).toBits.toBitVec := by
    intro m n heq
    refine hkey.injective (congrArg floatKey ?_)
    exact Float.toBits_inj.mp (UInt64.toBitVec_inj.mp heq)
  exact not_injective_infinite_finite _ hinjective

theorem add_ne_nan_of_le (h : x ≤ y) (hd : 0 < d) (hx : x + d ≠ Float.nan) : y + d ≠ Float.nan := by
  obtain ⟨⟨hxn, hyn⟩, hkey⟩ := le_iff_floatKey.mp h
  obtain ⟨⟨-, hdn⟩, hpos⟩ := lt_iff_floatKey.mp hd
  rw [floatKey_zero] at hpos
  rw [ne_eq, add_eq_nan_iff] at hx ⊢
  exact add_ne_notANumber (isNumber_of_ne_nan hxn) (isNumber_of_ne_nan hyn) (isNumber_of_ne_nan hdn)
    hpos hkey hx

/-- Adding more than zero is monotone where the lower sum is a number. -/
theorem add_le_add_of_le (h : x ≤ y) (hd : 0 < d) (hx : x + d ≠ Float.nan) : x + d ≤ y + d := by
  have hy := add_ne_nan_of_le h hd hx
  obtain ⟨⟨hxn, hyn⟩, hkey⟩ := le_iff_floatKey.mp h
  obtain ⟨⟨-, hdn⟩, -⟩ := lt_iff_floatKey.mp hd
  refine le_iff_floatKey.mpr ⟨⟨hx, hy⟩, ?_⟩
  rw [floatKey_add hx, floatKey_add hy]
  rw [ne_eq, add_eq_nan_iff] at hx hy
  exact orderKey_add_le (isNumber_of_ne_nan hxn) (isNumber_of_ne_nan hyn) (isNumber_of_ne_nan hdn)
    hkey hx hy

theorem le_add_of_pos (hd : 0 < d) (hx : x + d ≠ Float.nan) : x ≤ x + d := by
  obtain ⟨hxn, hdn⟩ := ne_nan_of_add_ne_nan hx
  obtain ⟨-, hpos⟩ := lt_iff_floatKey.mp hd
  rw [floatKey_zero] at hpos
  refine le_iff_floatKey.mpr ⟨⟨hxn, hx⟩, ?_⟩
  rw [floatKey_add hx]
  rw [ne_eq, add_eq_nan_iff] at hx
  exact orderKey_le_add (isNumber_of_ne_nan hxn) (stored_unpack hxn) (isNumber_of_ne_nan hdn) hpos hx

/-- Adding more than zero leads to a larger number where the number is below `2 ^ 53` times of it. -/
theorem lt_add_of_units (hx : IsCanonical x.toModel.unpack) (hd : IsCanonical d.toModel.unpack)
    (h : (units x.toModel.unpack).natAbs < 2 * hiddenBit * units d.toModel.unpack) : x < x + d := by
  have hxn : x ≠ Float.nan := fun hnan => hx.ne_notANumber (unpack_eq_notANumber_iff.mpr hnan)
  have hsum := (isNearest_add hx hd).canonical
  have hne : x + d ≠ Float.nan := mt add_eq_nan_iff.mp hsum.ne_notANumber
  refine lt_iff_floatKey.mpr ⟨⟨hxn, hne⟩, ?_⟩
  rw [floatKey_add hne]
  refine orderKey_stored_lt hx hsum (stored_unpack hxn) (not_le.mp fun hle => ?_)
  exact absurd ((orderKey_le_iff hsum hx).mp hle) (not_le.mpr (units_lt_add hx hd h))

end Floats

end QualityScript.Number
