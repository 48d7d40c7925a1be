import QualityScript.Proofs.Number.Sums
import QualityScript.Tool.Curve

/-!
# Where sampling a curve ends

The points of a curve are sampled until the skill is past the limit, and every skill is the one before
it and the step, rounded to the nearest float. The skills never fall, and there are finitely many
floats, so the sampling ends unless a step leads nowhere: it is rounded away, or the skill is infinite.
As sums are monotone, a float at which the step leads nowhere holds back all skills that come to it.
-/

namespace QualityScript.Challenge

open Number

variable {direction : Direction} {target start stop step slack limit : Float} {params : Params Float}

/-- The skill that is reached after `n` steps. -/
def skillAt (start step : Float) (n : Nat) : Float := (· + step)^[n] start

theorem skillAt_succ (start step : Float) (n : Nat) :
    skillAt start step (n + 1) = skillAt start step n + step :=
  Function.iterate_succ_apply' _ n start

/-- There are more points than asked for exactly if so many skills are within the limit and have a
chance. -/
theorem pointsFrom_eq_tooLong_iff {count : Nat} :
    pointsFrom direction target params limit step count start = .error .tooLong ↔
      ∀ n < count, skillAt start step n ≤ limit ∧
        chance? direction (skillAt start step n) target params ≠ none := by
  induction count generalizing start with
  | zero => simp [pointsFrom]
  | succ count ih =>
    have hnext (n : Nat) : skillAt start step (n + 1) = skillAt (start + step) step n := rfl
    rw [pointsFrom, Nat.forall_lt_succ_left]
    simp only [hnext, ← ih]
    change _ ↔ (start ≤ limit ∧ chance? direction start target params ≠ none) ∧ _
    by_cases hlimit : start ≤ limit
    · cases hchance : chance? direction start target params with
      | none => simp [hlimit]
      | some percent =>
        cases pointsFrom direction target params limit step count (start + step) <;>
          simp [hlimit, Except.map]
    · simp [hlimit]

/-- A float at which the step leads nowhere is never passed. -/
theorem skillAt_le_of_not_lt (hstep : 0 < step) {p : Float} (hp : start + step ≤ p)
    (hstuck : ¬ p < p + step) (n : Nat) : start ≤ skillAt start step n ∧ skillAt start step n ≤ p := by
  have hsum : start + step ≠ Float.nan := (le_iff_floatKey.mp hp).1.1
  have hstart : start ≤ p := floatLe_trans (le_add_of_pos hstep hsum) hp
  have hback : p + step ≤ p :=
    floatLe_of_not_lt (add_ne_nan_of_le hstart hstep hsum) (le_iff_floatKey.mp hp).1.2 hstuck
  induction n with
  | zero => exact ⟨floatLe_refl (le_iff_floatKey.mp hstart).1.1, hstart⟩
  | succ n ih =>
    have hnumber := add_ne_nan_of_le ih.1 hstep hsum
    rw [skillAt_succ]
    exact ⟨floatLe_trans ih.1 (le_add_of_pos hstep hnumber),
      floatLe_trans (add_le_add_of_le ih.2 hstep hnumber) hback⟩

/-- Skills that stay within a limit for ever come to a float at which the step leads nowhere. -/
theorem exists_not_lt_of_forall_le (hstep : 0 < step) (h : ∀ n, skillAt start step n ≤ limit) :
    ∃ p, start + step ≤ p ∧ p ≤ limit ∧ ¬ p < p + step := by
  by_contra! hmoves
  have hnumber (n : Nat) : skillAt start step n ≠ Float.nan := (le_iff_floatKey.mp (h n)).1.1
  have hreached (n : Nat) : start + step ≤ skillAt start step (n + 1) := by
    induction n with
    | zero => exact floatLe_refl (hnumber 1)
    | succ n ih =>
      have hsum := hnumber (n + 2)
      rw [skillAt_succ] at hsum ⊢
      exact floatLe_trans ih (le_add_of_pos hstep hsum)
  refine not_forall_lt_succ (fun n => skillAt start step (n + 1)) fun n => ?_
  rw [skillAt_succ start step (n + 1)]
  exact hmoves _ (hreached n) (h _)

theorem step_pos (hstep : ¬ step ≤ 0) {p : Float} (h : start + step ≤ p) : 0 < step := by
  have hzero : (0 : Float) ≠ Float.nan := by decide +kernel
  exact floatLt_of_not_le hzero (ne_nan_of_add_ne_nan (le_iff_floatKey.mp h).1.1).2 hstep

/-- A curve has more points than any number asked for exactly if there is something to sample and all
skills are within the limit and have a chance. -/
theorem forall_points_eq_tooLong_iff :
    (∀ most, points direction target params start stop step slack most = .error .tooLong) ↔
      ¬ (step ≤ 0 ∨ stop < start) ∧ ∀ n, skillAt start step n ≤ stop + slack ∧
        chance? direction (skillAt start step n) target params ≠ none := by
  by_cases hguard : step ≤ 0 ∨ stop < start
  · simp [points, hguard]
  · simp only [points, if_neg hguard, pointsFrom_eq_tooLong_iff]
    exact ⟨fun h => ⟨hguard, fun n => h n n n.lt_succ_self⟩, fun h _ n _ => h.2 n⟩

/-- Sampling a curve ends exactly if there is nothing to sample, or the step leads to a larger float
from every float between the second skill and the limit, or a skill within the limit has no chance. -/
theorem points_end_iff (direction : Direction) (target : Float) (params : Params Float)
    (start stop step slack : Float) :
    (∃ most, points direction target params start stop step slack most ≠ .error .tooLong) ↔
      step ≤ 0 ∨ stop < start ∨
      (∀ p, start + step ≤ p → p ≤ stop + slack → p < p + step) ∨
      ∃ n, (∀ k ≤ n, skillAt start step k ≤ stop + slack) ∧
        chance? direction (skillAt start step n) target params = none := by
  rw [← not_iff_not, not_exists]
  simp only [not_not, forall_points_eq_tooLong_iff]
  constructor
  · rintro ⟨hguard, hendless⟩
    have hstep : 0 < step :=
      step_pos (fun hstep => hguard (.inl hstep)) (hendless 1).1
    obtain ⟨p, hlow, hhigh, hstuck⟩ := exists_not_lt_of_forall_le hstep fun n => (hendless n).1
    rintro (hnone | hempty | hmoves | ⟨n, -, hchance⟩)
    · exact hguard (.inl hnone)
    · exact hguard (.inr hempty)
    · exact hstuck (hmoves p hlow hhigh)
    · exact (hendless n).2 hchance
  · intro h
    push Not at h
    obtain ⟨hnone, hempty, ⟨p, hlow, hhigh, hstuck⟩, hchance⟩ := h
    have hle (n : Nat) : skillAt start step n ≤ stop + slack :=
      floatLe_trans (skillAt_le_of_not_lt (step_pos hnone hlow) hlow hstuck n).2 hhigh
    exact ⟨not_or.mpr ⟨hnone, hempty⟩, fun n => ⟨hle n, hchance n fun k _ => hle k⟩⟩

/-- Where the start and the limit are below `2 ^ 53` steps, every step is felt and the sampling ends. -/
theorem points_end_of_units (hstart : IsCanonical start.toModel.unpack)
    (hstep : IsCanonical step.toModel.unpack) (hlimit : IsCanonical (stop + slack).toModel.unpack)
    (hlow : (units start.toModel.unpack).natAbs < 2 * hiddenBit * units step.toModel.unpack)
    (hhigh : (units (stop + slack).toModel.unpack).natAbs <
      2 * hiddenBit * units step.toModel.unpack) :
    ∃ most, points direction target params start stop step slack most ≠ .error .tooLong := by
  by_contra! hendless
  obtain ⟨hguard, hskills⟩ := forall_points_eq_tooLong_iff.mp hendless
  have hpos : 0 < step := step_pos (fun hnone => hguard (.inl hnone)) (hskills 1).1
  obtain ⟨p, hp, hplimit, hstuck⟩ := exists_not_lt_of_forall_le hpos fun n => (hskills n).1
  have hstartp : start ≤ p := floatLe_trans (le_add_of_pos hpos (le_iff_floatKey.mp hp).1.1) hp
  have hcanonical := isCanonical_of_le_of_le hstart hlimit hstartp hplimit
  have hfloor := (orderKey_le_iff hstart hcanonical).mp (le_iff_floatKey.mp hstartp).2
  have hceiling := (orderKey_le_iff hcanonical hlimit).mp (le_iff_floatKey.mp hplimit).2
  exact hstuck (lt_add_of_units hcanonical hstep (by omega))

/-- A step of one is rounded away at ten to the sixteenth: the sampling does not end. -/
theorem points_endless_of_large_start :
    ¬ ∃ most, points .high 10 ⟨10, 0, 100, 60⟩ 1e16 1e16 1 Tool.Curve.slack most ≠
      .error .tooLong := by
  have hstuck : (1e16 : Float) + 1 = 1e16 := by decide +kernel
  have hskill (n : Nat) : skillAt (1e16 : Float) 1 n = 1e16 := by
    induction n with
    | zero => rfl
    | succ n ih => rw [skillAt_succ, ih, hstuck]
  rw [not_exists]
  simp only [not_not, forall_points_eq_tooLong_iff, hskill]
  refine ⟨by decide +kernel, fun _ => ?_⟩
  decide +kernel

end QualityScript.Challenge
