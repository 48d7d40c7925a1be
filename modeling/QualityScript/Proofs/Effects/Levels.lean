import QualityScript.Proofs.Number.Words
import QualityScript.Proofs.Effects.Holdings

/-!
# Levels moved by whole amounts

A change by a whole amount first makes a float of it and rounds that again. So the level after the
change is the exact one, limited to a word, for the amounts that come back: those of 53 binary digits,
zeros at the end apart, and the largest word. A loss is a gain of the negated amount, which is one too
small for the smallest word and just right for the word above it.
-/

namespace QualityScript

open Number Quality

/-- A counter, or a thing that is owned or worn. -/
def Quality.Holding.HasCount : Holding → Prop
  | counter _ | item _ | equipable .. => True
  | pyramidal .. | text _ => False

/-- The holding with a level limited to a word, and not below zero unless it counts. -/
def Quality.Holding.atLevel (level : Int) : Holding → Holding
  | counter _ => counter (saturate level)
  | item _ => item (saturate (max 0 level))
  | equipable _ bonus => equipable (saturate (max 0 level)) bonus
  | holding => holding

/-- The exact level after a change by a whole amount. -/
def ChangeOp.exactLevel (level amount : Int) : ChangeOp → Int
  | add => level + amount
  | subtract => level - amount
  | set => amount
  | increment => level + 1
  | decrement => level - 1

/-- Every level becomes the exact one. -/
def ChangeOp.ExactFor (op : ChangeOp) (n : Int64) : Prop :=
  ∀ before : Holding, before.HasCount → nextHolding before op (.int n) =
    before.atLevel (op.exactLevel before.level.toInt n.toInt)

theorem saturate_max_zero (x : Int) : saturate (max 0 x) = floorZero (saturate x) := by
  have hmax : floorZero (saturate x) = if saturate x ≤ 0 then 0 else saturate x := rfl
  rw [hmax, ← Int64.toInt_inj, toInt_saturate]
  split
  · next h =>
    rw [Int64.le_iff_toInt_le, toInt_saturate, Int64.toInt_zero] at h
    rw [Int64.toInt_zero]
    unfold limit minWord maxWord at *
    omega
  · next h =>
    rw [Int64.le_iff_toInt_le, toInt_saturate, Int64.toInt_zero] at h
    rw [toInt_saturate]
    unfold limit minWord maxWord at *
    omega

variable {before : Holding}

theorem setLevel_eq_atLevel (h : before.HasCount) (level : Int64) :
    setLevel before level = before.atLevel level.toInt := by
  cases before with
  | counter _ | item _ | equipable _ _ =>
    simp only [setLevel, Holding.atLevel, saturate_max_zero, saturate_toInt]
  | pyramidal _ _ | text _ => exact h.elim

theorem moveLevel_eq_atLevel (h : before.HasCount) (delta : Int64) :
    moveLevel before delta = before.atLevel (before.level.toInt + delta.toInt) := by
  cases before with
  | counter _ | item _ | equipable _ _ =>
    simp only [moveLevel, addLevel, Holding.atLevel, Holding.level, saturate_max_zero]
  | pyramidal _ _ | text _ => exact h.elim

theorem nextHolding_int (h : before.HasCount) (op : ChangeOp) (n : Int64) :
    nextHolding before op (.int n) = nextLevel before op (roundWord (ofWord n)) := by
  cases before with
  | counter _ | item _ | equipable _ _ => rfl
  | pyramidal _ _ | text _ => exact h.elim

namespace ChangeOp

variable {n : Int64}

theorem exactFor_add_iff : add.ExactFor n ↔ roundWord (ofWord n) = n := by
  constructor
  · intro h
    have hcount : (Holding.counter 0).HasCount := trivial
    have hzero := h (.counter 0) hcount
    simp only [nextHolding_int hcount, nextLevel, moveLevel_eq_atLevel hcount, exactLevel,
      Holding.level, Int64.toInt_zero, Int.zero_add, Holding.atLevel, saturate_toInt,
      Holding.counter.injEq] at hzero
    exact hzero
  · intro h before hcount
    rw [nextHolding_int hcount, h, nextLevel, moveLevel_eq_atLevel hcount]
    rfl

theorem exactFor_set_iff : set.ExactFor n ↔ roundWord (ofWord n) = n := by
  constructor
  · intro h
    have hcount : (Holding.counter 0).HasCount := trivial
    have hzero := h (.counter 0) hcount
    simp only [nextHolding_int hcount, nextLevel, setLevel_eq_atLevel hcount, exactLevel,
      Holding.atLevel, saturate_toInt, Holding.counter.injEq] at hzero
    exact hzero
  · intro h before hcount
    rw [nextHolding_int hcount, h, nextLevel, setLevel_eq_atLevel hcount]
    rfl

theorem exactFor_subtract_iff :
    subtract.ExactFor n ↔ (negateLevel (roundWord (ofWord n))).toInt = -n.toInt := by
  have hmoved {before : Holding} (hcount : before.HasCount) :
      nextHolding before .subtract (.int n) =
        before.atLevel (before.level.toInt + (negateLevel (roundWord (ofWord n))).toInt) := by
    rw [nextHolding_int hcount, nextLevel, moveLevel_eq_atLevel hcount]
  have hcounter (level : Int64) : (Holding.counter level).HasCount := trivial
  constructor
  · intro h
    -- At zero the smallest amount is hidden by the end of the range, below zero it is not.
    have hzero := h (.counter 0) trivial
    have hbelow := h (.counter (-1)) trivial
    rw [hmoved (hcounter _)] at hzero hbelow
    simp only [exactLevel, Holding.level, Holding.atLevel, Holding.counter.injEq,
      ← Int64.toInt_inj, toInt_saturate] at hzero hbelow
    have hlow := Int64.le_toInt n
    have hhigh := Int64.toInt_lt n
    have hlow' := Int64.le_toInt (negateLevel (roundWord (ofWord n)))
    have hhigh' := Int64.toInt_lt (negateLevel (roundWord (ofWord n)))
    change limit (0 + _) = limit (0 - _) at hzero
    change limit (-1 + _) = limit (-1 - _) at hbelow
    unfold limit minWord maxWord at hzero hbelow
    omega
  · intro h before hcount
    rw [hmoved hcount, h]
    rfl

theorem toInt_negateLevel_eq_neg_iff {w : Int64} :
    (negateLevel w).toInt = -n.toInt ↔
      n.toInt ≠ minWord ∧ (w = n ∨ w.toInt = minWord ∧ n.toInt = -maxWord) := by
  have hlow := Int64.le_toInt w
  have hhigh := Int64.toInt_lt w
  have hlow' := Int64.le_toInt n
  have hhigh' := Int64.toInt_lt n
  rw [negateLevel, toInt_saturate, ← Int64.toInt_inj]
  unfold limit minWord maxWord
  omega

/-- Whole amounts that come back from their float: the largest word, and the numbers that have 53 binary
digits at most, zeros at their end apart. -/
def ComesBack (n : Int64) : Prop := n.toInt = maxWord ∨ FitsFloat n.toInt.natAbs

/-- A gain by a whole amount is exact, and so is setting to it, exactly if the amount comes back from
its float. A loss is exact for these too, except for the smallest word, and besides for the word above
that. Steps by one are always exact. -/
theorem exactFor_iff (n : Int64) :
    (add.ExactFor n ↔ ComesBack n) ∧ (set.ExactFor n ↔ ComesBack n) ∧
    (subtract.ExactFor n ↔ n.toInt ≠ minWord ∧ (ComesBack n ∨ n.toInt = -maxWord)) ∧
    increment.ExactFor n ∧ decrement.ExactFor n := by
  have hback : roundWord (ofWord n) = n ↔ ComesBack n := roundWord_ofWord_eq_iff
  refine ⟨exactFor_add_iff.trans hback, exactFor_set_iff.trans hback, ?_, ?_, ?_⟩
  · rw [exactFor_subtract_iff, toInt_negateLevel_eq_neg_iff, hback]
    refine and_congr_right fun _ => or_congr_right (and_iff_right_of_imp fun hmax => ?_)
    obtain rfl : n = -Int64.maxValue := Int64.toInt_inj.mp hmax
    decide +kernel
  · intro before hcount
    rw [nextHolding_int hcount, nextLevel, moveLevel_eq_atLevel hcount]
    rfl
  · intro before hcount
    rw [nextHolding_int hcount, nextLevel, moveLevel_eq_atLevel hcount]
    rfl

/-- The first amount that does not come back is gained as one less. The smallest word is lost as one
less, which shows below zero. -/
theorem gain_not_exact_of_odd :
    nextHolding (.counter 0) .add (.int 9007199254740993) = .counter 9007199254740992 ∧
    (Holding.counter 0).atLevel (exactLevel 0 9007199254740993 add) = .counter 9007199254740993 ∧
    nextHolding (.counter (-1)) .subtract (.int Int64.minValue) = .counter 9223372036854775806 ∧
    (Holding.counter (-1)).atLevel (exactLevel (-1) minWord subtract) =
      .counter 9223372036854775807 := by
  decide +kernel

end ChangeOp

end QualityScript
