import QualityScript.Effect

/-!
# Holdings that changes lead to

A change keeps the kind of a holding, and whatever the holding was, the one after the change is well
formed: an item or a worn thing is not owed, and change points that would buy the next level do not
stay unspent. The last holds because the steps of a gain are as many as the points pay for, and
because words saturate monotonically.
-/

namespace QualityScript

open Number Quality

namespace Number

theorem saturate_le_saturate {m n : Int} (h : m ≤ n) : saturate m ≤ saturate n := by
  rw [Int64.le_iff_toInt_le, toInt_saturate, toInt_saturate]
  unfold limit
  omega

theorem saturate_nonneg {n : Int} (h : 0 ≤ n) : 0 ≤ saturate n :=
  show saturate 0 ≤ saturate n from saturate_le_saturate h

end Number

namespace Quality

namespace Pyramid

theorem cost_lowered_le (level points guess : Nat) :
    cost level (lowered level points guess) ≤ points := by
  induction guess with
  | zero => simp [lowered, cost_zero]
  | succ steps ih =>
    unfold lowered
    split
    · exact ih
    · next h => exact Nat.le_of_not_lt h

/-- Moving the guess up ends where the points pay for the steps but not for one more. -/
theorem raised_spec (level points steps : Nat) (h : cost level steps ≤ points) :
    cost level (raised level points steps) ≤ points ∧
      points < cost level (raised level points steps + 1) := by
  fun_induction raised with
  | case1 steps hnext ih => exact ih hnext
  | case2 steps hnext => exact ⟨h, Nat.lt_of_not_le hnext⟩

theorem stepsFrom_spec (guess level points : Nat) :
    cost level (stepsFrom guess level points) ≤ points ∧
      points < cost level (stepsFrom guess level points + 1) :=
  raised_spec level points _ (cost_lowered_le level points guess)

theorem gain_spec (level points gained : Int64) :
    0 ≤ (gain level points gained).1 ∧ 0 ≤ (gain level points gained).2 ∧
      (gain level points gained).2 ≤ (gain level points gained).1 := by
  unfold gain
  generalize level.toInt.toNat = level
  generalize points.toInt.toNat + gained.toInt.toNat = points
  dsimp only
  obtain ⟨hpaid, hmore⟩ := stepsFrom_spec (guess level points 34 0) level points
  generalize stepsFrom (guess level points 34 0) level points = steps at hpaid hmore
  rw [cost_succ] at hmore
  exact ⟨saturate_nonneg (by omega), saturate_nonneg (by omega), saturate_le_saturate (by omega)⟩

end Pyramid

/-- A level that cannot be owed is not, and the change points would not buy another level. -/
def Holding.WellFormed : Holding → Prop
  | .pyramidal level points => 0 ≤ level ∧ 0 ≤ points ∧ points ≤ level
  | .item level | .equipable level _ => 0 ≤ level
  | .counter _ | .text _ => True

instance (holding : Holding) : Decidable holding.WellFormed := by
  cases holding <;> unfold Holding.WellFormed <;> infer_instance

end Quality

theorem floorZero_nonneg (level : Int64) : 0 ≤ floorZero level := by
  have hmax : floorZero level = if level ≤ 0 then 0 else level := rfl
  rw [hmax]
  split
  · exact Int64.le_refl 0
  · next hpos => exact Int64.le_of_lt (Int64.not_le.mp hpos)

theorem kind_setLevel (before : Holding) (level : Int64) :
    (setLevel before level).kind = before.kind := by
  cases before <;> rfl

theorem kind_moveLevel (before : Holding) (delta : Int64) :
    (moveLevel before delta).kind = before.kind := by
  cases before with
  | pyramidal level points =>
    unfold moveLevel
    dsimp only
    split
    · simp only [Holding.kind]
    · simp only [Holding.kind]
  | _ => rfl

theorem kind_nextLevel (before : Holding) (op : ChangeOp) (amount : Int64) :
    (nextLevel before op amount).kind = before.kind := by
  cases op with
  | set => exact kind_setLevel before amount
  | add => exact kind_moveLevel before amount
  | subtract => exact kind_moveLevel before (negateLevel amount)
  | increment => exact kind_moveLevel before 1
  | decrement => exact kind_moveLevel before (-1)

theorem kind_nextHolding (before : Holding) (op : ChangeOp) (amount : Value) :
    (nextHolding before op amount).kind = before.kind := by
  cases before with
  | text value => rfl
  | pyramidal _ _ | counter _ | item _ | equipable _ _ => exact kind_nextLevel _ op _

theorem wellFormed_setLevel (before : Holding) (level : Int64) :
    (setLevel before level).WellFormed := by
  have hfloor := floorZero_nonneg level
  cases before with
  | pyramidal _ _ => exact ⟨hfloor, Int64.le_refl 0, hfloor⟩
  | item _ | equipable _ _ => exact hfloor
  | counter _ | text _ => trivial

theorem wellFormed_moveLevel (before : Holding) (delta : Int64) :
    (moveLevel before delta).WellFormed := by
  cases before with
  | pyramidal level points =>
    unfold moveLevel
    dsimp only
    split
    · exact Pyramid.gain_spec level points delta
    · have hfloor := floorZero_nonneg (addLevel level delta)
      exact ⟨hfloor, Int64.le_refl 0, hfloor⟩
  | item level | equipable level _ => exact floorZero_nonneg _
  | counter _ | text _ => trivial

theorem wellFormed_nextLevel (before : Holding) (op : ChangeOp) (amount : Int64) :
    (nextLevel before op amount).WellFormed := by
  cases op with
  | set => exact wellFormed_setLevel before amount
  | add => exact wellFormed_moveLevel before amount
  | subtract => exact wellFormed_moveLevel before (negateLevel amount)
  | increment => exact wellFormed_moveLevel before 1
  | decrement => exact wellFormed_moveLevel before (-1)

theorem wellFormed_nextHolding (before : Holding) (op : ChangeOp) (amount : Value) :
    (nextHolding before op amount).WellFormed := by
  cases before with
  | text value => trivial
  | pyramidal _ _ | counter _ | item _ | equipable _ _ => exact wellFormed_nextLevel _ op _

end QualityScript
