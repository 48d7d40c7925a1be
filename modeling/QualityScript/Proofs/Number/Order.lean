import Mathlib
import QualityScript.Proofs.Evaluation.Caps

/-!
# The order of floats

Every float that is a number has a key: its kind and sign, then the exponent, then the mantissa. Two
floats are compared as their keys are, so the floats that are numbers are in a line, with the two zeros
at one place. A float that is no number is not less than, equal to or greater than any other, itself
included. It comes from no decimal and from no word, only from the text that spells it.
-/

namespace QualityScript

open Number Text Float.Model

/-- The place of a float among those that are numbers. -/
def orderKey : UnpackedFloat → Int ×ₗ Int ×ₗ Int
  | .infinity .negative => toLex (-2, toLex (0, 0))
  | .finite .negative m e _ => toLex (-1, toLex (-e, -m))
  | .zero _ | .notANumber => toLex (0, toLex (0, 0))
  | .finite .positive m e _ => toLex (1, toLex (e, m))
  | .infinity .positive => toLex (2, toLex (0, 0))

section Keys

variable {a b : UnpackedFloat}

theorem compare_sign (s t : UnpackedFloat.Sign) : compare s t =
    match s, t with
    | .negative, .positive => .lt
    | .positive, .negative => .gt
    | _, _ => .eq := by
  cases s <;> cases t <;> rfl

theorem compare_eq_lt_iff (ha : a ≠ .notANumber) (hb : b ≠ .notANumber) :
    a.compare b = some .lt ↔ orderKey a < orderKey b := by
  rcases a with (_ | _) | _ | _ | ⟨_ | _, m, e, hm⟩ <;>
    rcases b with (_ | _) | _ | _ | ⟨_ | _, n, f, hn⟩ <;>
      simp_all [UnpackedFloat.compare, orderKey, compare_sign, Prod.Lex.toLex_lt_toLex,
        Ordering.then_eq_lt, Ordering.then_eq_gt, compare_lt_iff_lt, compare_gt_iff_gt]

theorem compare_eq_eq_iff (ha : a ≠ .notANumber) (hb : b ≠ .notANumber) :
    a.compare b = some .eq ↔ orderKey a = orderKey b := by
  rcases a with (_ | _) | _ | _ | ⟨_ | _, m, e, hm⟩ <;>
    rcases b with (_ | _) | _ | _ | ⟨_ | _, n, f, hn⟩ <;>
      simp_all [UnpackedFloat.compare, orderKey, compare_sign, Ordering.then_eq_eq]

theorem compare_eq_some_iff {o : Ordering} : a.compare b = some o ↔
    (a ≠ .notANumber ∧ b ≠ .notANumber) ∧ cmp (orderKey a) (orderKey b) = o := by
  by_cases hnan : a = .notANumber ∨ b = .notANumber
  · rw [compare_eq_none_iff.mpr hnan]
    simp [← not_or, hnan]
  · obtain ⟨ha, hb⟩ := not_or.mp hnan
    rw [and_iff_right ⟨ha, hb⟩]
    cases o with
    | lt => rw [compare_eq_lt_iff ha hb, cmp_eq_lt_iff]
    | eq => rw [compare_eq_eq_iff ha hb, cmp_eq_eq_iff]
    | gt =>
      have hgt := compare_eq_lt_iff hb ha
      rw [compare_swap a b] at hgt
      rw [cmp_eq_gt_iff, ← hgt]
      cases a.compare b <;> simp

end Keys

section Floats

variable {x y : Float}

/-- The place of a float among those that are numbers. -/
def floatKey (x : Float) : Int ×ₗ Int ×ₗ Int := orderKey x.toModel.unpack

theorem unpack_eq_notANumber_iff : x.toModel.unpack = .notANumber ↔ x = Float.nan := by
  rw [← UnpackedFloat.isNaN_iff, ← decide_eq_true_iff (p := x = Float.nan),
    ← Float.isNaN_eq_decide_eq_nan]
  rfl

theorem compare_unpack_eq_some_iff {o : Ordering} :
    x.toModel.unpack.compare y.toModel.unpack = some o ↔
      (x ≠ Float.nan ∧ y ≠ Float.nan) ∧ cmp (floatKey x) (floatKey y) = o := by
  rw [compare_eq_some_iff, ne_eq, ne_eq, unpack_eq_notANumber_iff, unpack_eq_notANumber_iff]
  rfl

theorem lt_iff_floatKey :
    x < y ↔ (x ≠ Float.nan ∧ y ≠ Float.nan) ∧ floatKey x < floatKey y := by
  rw [← cmp_eq_lt_iff (floatKey x), ← compare_unpack_eq_some_iff, ← beq_iff_eq (α := Option Ordering)]
  simp only [LT.lt, Float.lt, decide_eq_true_eq]
  rfl

theorem beq_iff_floatKey :
    x == y ↔ (x ≠ Float.nan ∧ y ≠ Float.nan) ∧ floatKey x = floatKey y := by
  rw [← cmp_eq_eq_iff (floatKey x), ← compare_unpack_eq_some_iff, ← beq_iff_eq (α := Option Ordering)]
  rfl

theorem le_iff_floatKey :
    x ≤ y ↔ (x ≠ Float.nan ∧ y ≠ Float.nan) ∧ floatKey x ≤ floatKey y := by
  simp only [le_iff_isLE_compare, compare_unpack_eq_some_iff, Ordering.isLE_iff_eq_lt_or_eq_eq,
    le_iff_lt_or_eq, ← cmp_eq_lt_iff (floatKey x), ← cmp_eq_eq_iff (floatKey x)]
  constructor
  · rintro ⟨o, ⟨hne, rfl⟩, ho⟩
    exact ⟨hne, ho⟩
  · exact fun ⟨hne, ho⟩ => ⟨_, ⟨hne, rfl⟩, ho⟩

end Floats

/-! ## What is no number -/

section Packed

open UnpackedFloat (isNaNBits packedNaN packedInfinity packedZero)

theorem pack_eq_packedNaN_iff {f : UnpackedFloat} :
    f.pack .binary64 = packedNaN .binary64 ↔ f = .notANumber := by
  refine ⟨fun h => ?_, fun h => h ▸ rfl⟩
  have hnan : isNaNBits (f.pack .binary64) := h ▸ UnpackedFloat.isNaNBits_packedNaN
  unfold isNaNBits at hnan
  revert hnan
  fun_cases UnpackedFloat.pack with
  | case1 => simp
  | case2 s => simp [packedInfinity]
  | case3 s => simp [packedZero]
  | case4 s => simp [packedInfinity]
  | case5 s m e hm bits biased hlt hbits =>
    have hne : BitVec.ofNat 11 biased ≠ -1#11 := by
      intro heq
      have hbiased := congrArg BitVec.toNat heq
      have hsmall : ¬ 2048 ≤ biased + 1 := hlt
      rw [BitVec.toNat_ofNat, show (-1#11).toNat = 2047 from rfl] at hbiased
      omega
    rw [UnpackedFloat.unpackExponent_packComponents]
    simp only [hne, false_and, decide_false, Bool.false_eq_true, false_implies]
  | case6 => simp

theorem ofModel_pack_eq_nan_iff {f : UnpackedFloat} :
    Float.ofModel (.pack f) = Float.nan ↔ f = .notANumber := by
  rw [← pack_eq_packedNaN_iff, ← unpack_eq_notANumber_iff,
    ← UnpackedFloat.unpack_eq_notANumber_iff_of_valid UnpackedFloat.valid_pack]
  rfl

end Packed

theorem neg_eq_nan_iff {x : Float} : -x = Float.nan ↔ x = Float.nan := by
  have hneg : x.toModel.unpack.neg = .notANumber ↔ x.toModel.unpack = .notANumber := by
    cases x.toModel.unpack <;> simp [UnpackedFloat.neg]
  rw [← unpack_eq_notANumber_iff (x := x), ← hneg, ← ofModel_pack_eq_nan_iff]
  rfl

theorem roundWithAccuracy_ne_notANumber (s : UnpackedFloat.Sign) (m : Nat) (e : Int)
    (a : UnpackedFloat.Accuracy) :
    UnpackedFloat.roundWithAccuracy .binary64 s m e a ≠ .notANumber := by
  unfold UnpackedFloat.roundWithAccuracy
  dsimp only
  split <;> simp

theorem normalize_ne_notANumber (m e : Int) (s : UnpackedFloat.Sign) :
    UnpackedFloat.normalize .binary64 m e s ≠ .notANumber := by
  unfold UnpackedFloat.normalize
  split
  · exact roundWithAccuracy_ne_notANumber _ _ _ _
  · simp
  · exact roundWithAccuracy_ne_notANumber _ _ _ _

section Operations

variable {a b : UnpackedFloat} {s : UnpackedFloat.Sign} {m : Nat} {e : Int} {hm : 0 < m}

theorem mul_finite_ne_notANumber (ha : a ≠ .notANumber) :
    a.mul .binary64 (.finite s m e hm) ≠ .notANumber := by
  cases a with
  | notANumber => exact absurd rfl ha
  | infinity | zero => simp [UnpackedFloat.mul]
  | finite => exact roundWithAccuracy_ne_notANumber _ _ _ _

theorem div_finite_ne_notANumber (ha : a ≠ .notANumber) :
    a.div .binary64 (.finite s m e hm) ≠ .notANumber := by
  cases a with
  | notANumber => exact absurd rfl ha
  | infinity | zero => simp [UnpackedFloat.div]
  | finite => exact roundWithAccuracy_ne_notANumber _ _ _ _

theorem ofScientific_ne_notANumber (m : Nat) (e : Int) :
    UnpackedFloat.ofScientific .binary64 m e ≠ .notANumber := by
  unfold UnpackedFloat.ofScientific
  split
  · simp
  split
  · simp
  split
  · simp
  split
  · exact mul_finite_ne_notANumber (by simp)
  · exact div_finite_ne_notANumber (by simp)

end Operations

theorem powersOfTen_finite (i : Fin Float.exactlyRepresentablePowersOfTen.size) :
    (Float.exactlyRepresentablePowersOfTen[i].toModel.unpack matches .finite ..) = true := by
  revert i
  decide +kernel

theorem exists_finite_powerOfTen {n : Nat}
    (h : n < Float.exactlyRepresentablePowersOfTen.size) : ∃ s m e hm,
      Float.exactlyRepresentablePowersOfTen[n].toModel.unpack = .finite s m e hm := by
  have hn := powersOfTen_finite ⟨n, h⟩
  rw [Fin.getElem_fin] at hn
  cases hcase : Float.exactlyRepresentablePowersOfTen[n].toModel.unpack with
  | finite s m e hm => exact ⟨s, m, e, hm, rfl⟩
  | notANumber | infinity | zero =>
    rw [hcase] at hn
    cases hn

theorem ofScientific_ne_nan (m : Nat) (s : Bool) (e : Nat) :
    Float.ofScientific m s e ≠ Float.nan := by
  unfold Float.ofScientific
  split
  · next h =>
    have hsize : e < Float.exactlyRepresentablePowersOfTen.size := Nat.lt_succ_of_le h.2
    obtain ⟨t, n, f, hn, hpower⟩ := exists_finite_powerOfTen hsize
    have hword : m.toUInt64.toFloat.toModel.unpack ≠ .notANumber := by
      rw [ne_eq, unpack_eq_notANumber_iff]
      exact fun hnan => normalize_ne_notANumber _ _ _ (ofModel_pack_eq_nan_iff.mp hnan)
    have hmul (x y : Float) :
        x * y = .ofModel (.pack (x.toModel.unpack.mul .binary64 y.toModel.unpack)) := rfl
    have hdiv (x y : Float) :
        x / y = .ofModel (.pack (x.toModel.unpack.div .binary64 y.toModel.unpack)) := rfl
    cases s
    · simp only [hmul, hpower, Bool.false_eq_true, if_false, ne_eq, ofModel_pack_eq_nan_iff]
      exact mul_finite_ne_notANumber hword
    · simp only [hdiv, hpower, if_true, ne_eq, ofModel_pack_eq_nan_iff]
      exact div_finite_ne_notANumber hword
  · exact fun h => ofScientific_ne_notANumber _ _ (ofModel_pack_eq_nan_iff.mp h)

theorem ofWord_ne_nan (w : Int64) : ofWord w ≠ Float.nan := by
  unfold ofWord Float.ofInt
  split
  · exact ofScientific_ne_nan _ _ _
  · exact fun h => ofScientific_ne_nan _ _ _ (neg_eq_nan_iff.mp h)

theorem floatOfDecimal_ne_nan (digits : Nat) (exponent : Int) :
    floatOfDecimal digits exponent ≠ Float.nan := by
  unfold floatOfDecimal
  split <;> exact ofScientific_ne_nan _ _ _

theorem ne_nan_of_readUnsigned? {text : List Char} {x : Float} (h : readUnsigned? text = some x) :
    x ≠ Float.nan := by
  simp only [readUnsigned?, Option.ite_none_left_eq_some, Option.map_eq_some_iff] at h
  obtain ⟨-, exponent, -, rfl⟩ := h
  exact floatOfDecimal_ne_nan _ _

/-- Whether a text, blanks at its ends apart, is the word `nan` in any case of letters, with or without
a sign. -/
def spellsNaN (s : String) : Bool :=
  String.ofList ((spanSign (trim s.toList)).2.map Char.toLower) == "nan"

theorem readNumber?_eq_nan_iff {s : String} :
    Value.readNumber? s = some Float.nan ↔ spellsNaN s := by
  have hsign {magnitude : Float} {negative : Bool} :
      (if negative then -magnitude else magnitude) = Float.nan ↔ magnitude = Float.nan := by
    cases negative
    · rfl
    · exact neg_eq_nan_iff
  have hinfinity : (1 / 0 : Float) ≠ Float.nan := by decide +kernel
  simp only [Value.readNumber?, readFloat?, spellsNaN, Option.map_eq_some_iff, hsign,
    exists_eq_right, beq_iff_eq]
  split
  · next heq => simp [heq, hinfinity]
  · next heq => simp [heq, hinfinity]
  · next heq => simp [heq, Float.nan]
  · next hne => exact iff_of_false (fun h => ne_nan_of_readUnsigned? h rfl) hne

/-- The number of a value, if it has one, is no number only if its text spells that or it is that. -/
def Value.IsNaN : Value → Prop
  | .text s => spellsNaN s
  | .float x => x = Float.nan
  | _ => False

theorem number?_eq_nan_iff {v : Value} : v.number? = some Float.nan ↔ v.IsNaN := by
  cases v with
  | text s => exact readNumber?_eq_nan_iff
  | float x => simp [Value.number?, Value.IsNaN]
  | int n => simp [Value.number?, Value.IsNaN, ofWord_ne_nan]
  | bool | ids | effect | pending => simp [Value.number?, Value.IsNaN]

end QualityScript
