import Mathlib
import QualityScript.Proofs.Evaluation.Steps

/-!
# Caps that are no numbers

A float that is not at most itself is no number, and of two floats that are numbers one is at most the
other. So the caps of a challenge can be put in order exactly if both are numbers. They must be for
every fraction that is a number itself. The caps that the author did not give are those of the
settings.
-/

namespace QualityScript

section Order

open Float.Model UnpackedFloat

theorem compare_eq_none_iff {a b : UnpackedFloat} :
    a.compare b = none ↔ a = .notANumber ∨ b = .notANumber := by
  fun_cases UnpackedFloat.compare a b <;> simp_all

theorem compare_swap (a b : UnpackedFloat) : b.compare a = (a.compare b).map .swap := by
  have hsign (s t : Sign) : compare t s = (compare s t).swap := by cases s <;> cases t <;> rfl
  have hfinite (e f : Int) (m n : Nat) :
      (compare f e).then (compare n m) = ((compare e f).then (compare m n)).swap := by
    rw [Ordering.swap_then, ← Std.OrientedCmp.eq_swap, ← Std.OrientedCmp.eq_swap]
  fun_cases UnpackedFloat.compare a b with
  | case1 => cases b <;> rfl
  | case3 s t => exact congrArg some (hsign s t)
  | case13 m e _ n f _ => exact congrArg some (by rw [hfinite, Ordering.swap_swap])
  | case16 m e _ n f _ => exact congrArg some (hfinite e f m n)
  | _ => simp_all [UnpackedFloat.compare]

theorem le_iff_isLE_compare {x y : Float} :
    x ≤ y ↔ ∃ o, x.toModel.unpack.compare y.toModel.unpack = some o ∧ o.isLE := by
  rw [← Option.any_eq_true]
  simp only [LE.le, Float.le, decide_eq_true_eq]
  rfl

theorem le_or_le_of_ne {x y : Float} (hx : x.toModel.unpack ≠ .notANumber)
    (hy : y.toModel.unpack ≠ .notANumber) : x ≤ y ∨ y ≤ x := by
  simp only [le_iff_isLE_compare, compare_swap x.toModel.unpack]
  cases h : x.toModel.unpack.compare y.toModel.unpack with
  | none => exact absurd (compare_eq_none_iff.mp h) (not_or.mpr ⟨hx, hy⟩)
  | some o => cases o <;> simp

/-- One of two floats is at most the other exactly if each of them is at most itself. -/
theorem le_or_le_iff {x y : Float} : x ≤ y ∨ y ≤ x ↔ x ≤ x ∧ y ≤ y := by
  have hself {x : Float} (hx : x.toModel.unpack ≠ .notANumber) : x ≤ x :=
    (le_or_le_of_ne hx hx).elim id id
  have hne {x y : Float} (h : x ≤ y) :
      x.toModel.unpack ≠ .notANumber ∧ y.toModel.unpack ≠ .notANumber := by
    obtain ⟨o, ho, -⟩ := le_iff_isLE_compare.mp h
    refine not_or.mp fun hnan => ?_
    rw [compare_eq_none_iff.mpr hnan] at ho
    cases ho
  constructor
  · rintro (h | h)
    · exact ⟨hself (hne h).1, hself (hne h).2⟩
    · exact ⟨hself (hne h).2, hself (hne h).1⟩
  · rintro ⟨hx, hy⟩
    exact le_or_le_of_ne (hne hx).1 (hne hy).1

end Order

/-- There is no chance exactly if a number is to be moved between caps of which one is none. -/
theorem Challenge.chance?_eq_none_iff {direction : Direction} {skill target : Float}
    {params : Params Float} :
    chance? direction skill target params = none ↔
      fraction direction skill target params.margin params.pivot ≤
          fraction direction skill target params.margin params.pivot ∧
        ¬ (params.minCap ≤ params.minCap ∧ params.maxCap ≤ params.maxCap) := by
  have hcaps : (orderedCaps params).1 ≤ (orderedCaps params).2 ↔
      params.minCap ≤ params.minCap ∧ params.maxCap ≤ params.maxCap := by
    rw [← le_or_le_iff]
    unfold orderedCaps
    by_cases hle : params.minCap ≤ params.maxCap <;> simp [hle]
  rw [← hcaps]
  unfold chance?
  by_cases hnumber : fraction direction skill target params.margin params.pivot ≤
      fraction direction skill target params.margin params.pivot
  · by_cases hle : (orderedCaps params).1 ≤ (orderedCaps params).2 <;> simp [hnumber, hle]
  · simp [hnumber]

namespace Eval

def Inputs.fraction (x : Inputs) (direction : Direction) : Float :=
  Challenge.fraction direction x.skill x.target x.params.margin x.params.pivot

theorem eq_default_of_parameter {self : Evaluator} {given : Option Expr} {default value : Float}
    {frame : Frame} {mem mem' : Memory}
    (h : (parameter self given default frame).runOn mem = (.ok value, mem')) (hnone : given = none) :
    value = default := by
  subst hnone
  cases h
  rfl

theorem caps_of_inputs {env : Env} {self : Evaluator} {c : Challenge} {frame : Frame} {x : Inputs}
    {mem mem' : Memory} (h : (inputs env self c frame).runOn mem = (.ok x, mem')) :
    (c.minCap = none → x.params.minCap = env.config.minCap) ∧
      (c.maxCap = none → x.params.maxCap = env.config.maxCap) := by
  obtain ⟨skill, _, -, h⟩ := EvalM.exists_of_runOn_bind h
  obtain ⟨target, _, -, h⟩ := EvalM.exists_of_runOn_bind h
  obtain ⟨margin, _, -, h⟩ := EvalM.exists_of_runOn_bind h
  obtain ⟨minCap, _, hmin, h⟩ := EvalM.exists_of_runOn_bind h
  obtain ⟨maxCap, _, hmax, h⟩ := EvalM.exists_of_runOn_bind h
  obtain ⟨pivot, _, -, h⟩ := EvalM.exists_of_runOn_bind h
  cases h
  exact ⟨eq_default_of_parameter hmin, eq_default_of_parameter hmax⟩

end Eval

end QualityScript
