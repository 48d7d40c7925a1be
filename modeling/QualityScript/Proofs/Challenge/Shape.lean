import Mathlib
import QualityScript.Challenge.Curve

/-!
# The shape of a curve

With exact fractions the curve for a high skill is made of two ramps: one climbs to `pivot` over the
lower half of the zone, the other climbs from there to one over the upper half. The curve for a skill
near the target is one ramp in the distance from it. Ramps are monotone, and so is limiting a number
to the caps; whatever else is said of chances follows from these two facts.

A high skill fails a challenge for a low one, and a skill near the target fails one for a skill far
from it: the two fractions add up to one. Limits are mirrored with them. What is left of a whole, moved
between what the bounds leave of it, is what the number moved between the bounds leaves. So chances of
opposite challenges add up to a hundred where the caps of one are what the caps of the other leave.
-/

namespace QualityScript.Challenge

theorem between_eq {lo hi : ℚ} (h : lo ≤ hi) (x : ℚ) : between lo hi x = max lo (min hi x) := by
  unfold between
  dsimp only
  split_ifs with hlo hhi hhi
  · exact absurd h (not_le.mpr hhi)
  · rw [min_eq_right (hlo.le.trans h), max_eq_left hlo.le]
  · rw [min_eq_left hhi.le, max_eq_right h]
  · rw [min_eq_right (not_lt.mp hhi), max_eq_right (not_lt.mp hlo)]

theorem monotone_between {lo hi : ℚ} (h : lo ≤ hi) : Monotone (between lo hi) := by
  intro x y hxy
  rw [between_eq h, between_eq h]
  exact max_le_max_left lo (min_le_min_left hi hxy)

theorem between_mem {lo hi : ℚ} (h : lo ≤ hi) (x : ℚ) :
    lo ≤ between lo hi x ∧ between lo hi x ≤ hi := by
  rw [between_eq h]
  exact ⟨le_max_left _ _, max_le h (min_le_left _ _)⟩

theorem between_mul {lo hi c : ℚ} (h : lo ≤ hi) (hc : 0 ≤ c) (x : ℚ) :
    between lo hi x * c = between (lo * c) (hi * c) (x * c) := by
  rw [between_eq h, between_eq (mul_le_mul_of_nonneg_right h hc), max_mul_of_nonneg _ _ hc,
    min_mul_of_nonneg _ _ hc]

theorem size_eq_abs (x : ℚ) : size x = |x| := by
  unfold size
  split_ifs with h
  · exact (abs_of_neg h).symm
  · exact (abs_of_nonneg (not_lt.mp h)).symm

/-! ## Ramps -/

/-- The part of the way from `start` to `start + length` that is behind `x`. -/
def ramp (start length x : ℚ) : ℚ := between 0 1 ((x - start) / length)

theorem monotone_ramp (start : ℚ) {length : ℚ} (h : 0 < length) : Monotone (ramp start length) := by
  intro x y hxy
  refine monotone_between zero_le_one ?_
  exact div_le_div_of_nonneg_right (sub_le_sub_right hxy start) h.le

theorem ramp_of_le {start length x : ℚ} (hlength : 0 < length) (h : x ≤ start) :
    ramp start length x = 0 := by
  have hnone : (x - start) / length ≤ 0 :=
    div_nonpos_of_nonpos_of_nonneg (sub_nonpos.mpr h) hlength.le
  rw [ramp, between_eq zero_le_one, min_eq_right (hnone.trans zero_le_one), max_eq_left hnone]

theorem ramp_of_ge {start length x : ℚ} (hlength : 0 < length) (h : start + length ≤ x) :
    ramp start length x = 1 := by
  have hall : 1 ≤ (x - start) / length := by
    rw [le_div_iff₀ hlength]
    linarith
  rw [ramp, between_eq zero_le_one, min_eq_left hall, max_eq_right zero_le_one]

theorem ramp_of_mem {start length x : ℚ} (hlength : 0 < length) (hstart : start ≤ x)
    (hend : x ≤ start + length) : ramp start length x = (x - start) / length := by
  have hlo : 0 ≤ (x - start) / length := div_nonneg (sub_nonneg.mpr hstart) hlength.le
  have hhi : (x - start) / length ≤ 1 := by
    rw [div_le_one hlength]
    linarith
  rw [ramp, between_eq zero_le_one, min_eq_right hhi, max_eq_right hlo]

/-! ## The curves as ramps -/

section Curves

variable {target margin pivot : ℚ}

/-- Up to the target only the first ramp climbs, from there on only the second one. -/
theorem rising_eq_ramps (h : 0 < margin) (skill : ℚ) :
    rising skill target margin pivot =
      pivot * ramp (target - margin) margin skill + (1 - pivot) * ramp target margin skill := by
  have hspan : target - (target - margin) = margin := sub_sub_cancel target margin
  have hspan' : target + margin - target = margin := add_sub_cancel_left target margin
  unfold rising
  simp only [hspan, hspan', if_neg (not_le.mpr h)]
  -- Below the zone, past it, and in its lower and its upper half.
  split_ifs with hbelow habove hleft
  · rw [ramp_of_le h hbelow, ramp_of_le h (by linarith)]
    ring
  · rw [ramp_of_ge h (by linarith), ramp_of_ge h habove]
    ring
  · rw [ramp_of_mem h (not_le.mp hbelow).le (by linarith), ramp_of_le h hleft.le]
    ring
  · rw [ramp_of_ge h (by linarith), ramp_of_mem h (not_lt.mp hleft) (not_le.mp habove).le]
    ring

theorem monotone_rising (h₀ : 0 ≤ pivot) (h₁ : pivot ≤ 1) :
    Monotone fun skill => rising skill target margin pivot := by
  intro skill skill' hle
  dsimp only
  rcases lt_or_ge 0 margin with hmargin | hstep
  · rw [rising_eq_ramps hmargin, rising_eq_ramps hmargin]
    have hfirst := monotone_ramp (target - margin) hmargin hle
    have hsecond := monotone_ramp target hmargin hle
    exact add_le_add (mul_le_mul_of_nonneg_left hfirst h₀)
      (mul_le_mul_of_nonneg_left hsecond (sub_nonneg.mpr h₁))
  · unfold rising
    rw [if_pos hstep, if_pos hstep]
    split_ifs with hreached hreached' hreached'
    · exact le_rfl
    · exact absurd (hreached.trans hle) hreached'
    · exact zero_le_one
    · exact le_rfl

theorem rising_target (h : 0 < margin) : rising target target margin pivot = pivot := by
  rw [rising_eq_ramps h, ramp_of_ge h (by linarith), ramp_of_le h le_rfl]
  ring

theorem nearness_eq_ramp (h : 0 < margin) (skill : ℚ) :
    nearness skill target margin = 1 - ramp 0 margin |skill - target| := by
  unfold nearness
  dsimp only
  rw [size_eq_abs, if_neg (not_le.mpr h)]
  split_ifs with hfar
  · rw [ramp_of_ge h (by linarith), sub_self]
  · rw [ramp_of_mem h (abs_nonneg _) (by linarith), sub_zero]

theorem nearness_anti {skill skill' : ℚ} (h : |skill - target| ≤ |skill' - target|) :
    nearness skill' target margin ≤ nearness skill target margin := by
  rcases lt_or_ge 0 margin with hmargin | hstep
  · rw [nearness_eq_ramp hmargin, nearness_eq_ramp hmargin]
    exact sub_le_sub_left (monotone_ramp 0 hmargin h) 1
  · unfold nearness
    dsimp only
    rw [size_eq_abs, size_eq_abs, if_pos hstep, if_pos hstep]
    split_ifs with hthere' hthere hthere
    · exact le_rfl
    · exact absurd (h.trans hthere') hthere
    · exact zero_le_one
    · exact le_rfl

end Curves

/-! ## Chances -/

/-- The chance with exact fractions, which is always there. -/
def exactChance (target : ℚ) (params : Params ℚ) (direction : Direction) (skill : ℚ) : ℚ :=
  between (min params.minCap params.maxCap) (max params.minCap params.maxCap)
    (fraction direction skill target params.margin params.pivot * 100)

section Chances

variable {target : ℚ} {params : Params ℚ}

theorem orderedCaps_eq (params : Params ℚ) :
    orderedCaps params = (min params.minCap params.maxCap, max params.minCap params.maxCap) := by
  unfold orderedCaps
  split_ifs with h
  · rw [min_eq_left h, max_eq_right h]
  · have h' := (not_le.mp h).le
    rw [min_eq_right h', max_eq_left h']

theorem chance?_eq (direction : Direction) (skill : ℚ) :
    chance? direction skill target params = some (exactChance target params direction skill) := by
  have hcaps : min params.minCap params.maxCap ≤ max params.minCap params.maxCap := min_le_max
  unfold chance?
  dsimp only
  rw [orderedCaps_eq, if_neg (not_not.mpr le_rfl), if_pos hcaps]
  rfl

/-- A larger fraction gives no smaller chance. -/
theorem exactChance_mono {direction direction' : Direction} {skill skill' : ℚ}
    (h : fraction direction skill target params.margin params.pivot ≤
      fraction direction' skill' target params.margin params.pivot) :
    exactChance target params direction skill ≤ exactChance target params direction' skill' :=
  monotone_between min_le_max (mul_le_mul_of_nonneg_right h (by norm_num))

theorem monotone_exactChance_high : Monotone (exactChance target params .high) := by
  intro skill skill' hle
  obtain ⟨h₀, h₁⟩ := between_mem zero_le_one (params.pivot / 100)
  exact exactChance_mono (monotone_rising h₀ h₁ hle)

theorem antitone_exactChance_low : Antitone (exactChance target params .low) := by
  intro skill skill' hle
  obtain ⟨h₀, h₁⟩ := between_mem zero_le_one (params.pivot / 100)
  exact exactChance_mono (sub_le_sub_left (monotone_rising h₀ h₁ hle) 1)

theorem exactChance_near_anti {skill skill' : ℚ} (h : |skill - target| ≤ |skill' - target|) :
    exactChance target params .near skill' ≤ exactChance target params .near skill :=
  exactChance_mono (nearness_anti h)

theorem exactChance_far_mono {skill skill' : ℚ} (h : |skill - target| ≤ |skill' - target|) :
    exactChance target params .far skill ≤ exactChance target params .far skill' :=
  exactChance_mono (sub_le_sub_left (nearness_anti h) 1)

theorem exactChance_high_target (h : 0 < params.margin) :
    exactChance target params .high target =
      between (min params.minCap params.maxCap) (max params.minCap params.maxCap)
        (between 0 100 params.pivot) := by
  have hpercent : between 0 1 (params.pivot / 100) * 100 = between 0 100 params.pivot := by
    rw [between_mul zero_le_one (by norm_num), zero_mul, one_mul, div_mul_cancel₀ _ (by norm_num)]
  unfold exactChance fraction
  dsimp only
  rw [rising_target h, hpercent]

end Chances

/-- With exact fractions there is always a chance, and it lies between the caps, in whichever order
they come. A higher skill never lowers the chance for a high skill and never raises the one for a low
skill. The chance for a skill near the target depends on the distance from it alone and never grows
with it; the one far from it never falls. At the target of a zone that has a width a high skill has
the chance of the pivot, within zero and a hundred and within the caps. -/
theorem chance_shape (target : ℚ) (params : Params ℚ) :
    ∃ chance : Direction → ℚ → ℚ,
      (∀ direction skill, chance? direction skill target params = some (chance direction skill)) ∧
      (∀ direction skill, min params.minCap params.maxCap ≤ chance direction skill ∧
        chance direction skill ≤ max params.minCap params.maxCap) ∧
      Monotone (chance .high) ∧ Antitone (chance .low) ∧
      (∀ skill skill', |skill - target| = |skill' - target| →
        chance .near skill = chance .near skill') ∧
      (∀ skill skill', |skill - target| ≤ |skill' - target| →
        chance .near skill' ≤ chance .near skill ∧ chance .far skill ≤ chance .far skill') ∧
      (0 < params.margin → chance .high target =
        max (min params.minCap params.maxCap)
          (min (max params.minCap params.maxCap) (max 0 (min 100 params.pivot)))) := by
  refine ⟨exactChance target params, chance?_eq, fun _ _ => between_mem min_le_max _,
    monotone_exactChance_high, antitone_exactChance_low, fun skill skill' h => ?_,
    fun skill skill' h => ⟨exactChance_near_anti h, exactChance_far_mono h⟩, fun h => ?_⟩
  · exact le_antisymm (exactChance_near_anti h.ge) (exactChance_near_anti h.le)
  · rw [exactChance_high_target h, between_eq min_le_max, between_eq (by norm_num)]

/-- A zone of ten around ten, with the caps in the wrong order: at the target the pivot, far below it
the lower cap, and the same chance near it on either side. -/
theorem chance_shape_of_ten :
    ∃ chance : Direction → ℚ → ℚ,
      (∀ direction skill,
        chance? direction skill 10 ⟨10, 90, 20, 70⟩ = some (chance direction skill)) ∧
      (0 : ℚ) < 10 ∧ chance .high 10 = 70 ∧ 20 ≤ chance .high (-100) ∧
      |(7 : ℚ) - 10| = |13 - 10| ∧ chance .near 7 = chance .near 13 := by
  obtain ⟨chance, hchance, hcaps, -, -, hnear, -, htarget⟩ := chance_shape 10 ⟨10, 90, 20, 70⟩
  have hsides : |(7 : ℚ) - 10| = |13 - 10| := by norm_num
  have hpivot : chance .high 10 = 70 := (htarget (by norm_num)).trans (by norm_num)
  have hlow : (20 : ℚ) ≤ chance .high (-100) := by
    calc (20 : ℚ) ≤ min 90 20 := by norm_num
      _ ≤ chance .high (-100) := (hcaps .high (-100)).1
  exact ⟨chance, hchance, by norm_num, hpivot, hlow, hsides, hnear 7 13 hsides⟩

end QualityScript.Challenge

namespace QualityScript

/-- The direction that is won where this one is lost. -/
def Direction.opposite : Direction → Direction
  | high => low
  | low => high
  | near => far
  | far => near

namespace Challenge

/-- The caps on the chance to fail: what the caps on the chance leave of a hundred. -/
def Params.mirrored (params : Params ℚ) : Params ℚ :=
  { params with minCap := 100 - params.maxCap, maxCap := 100 - params.minCap }

variable {target : ℚ} {params : Params ℚ}

theorem sub_between {lo hi : ℚ} (h : lo ≤ hi) (whole x : ℚ) :
    whole - between lo hi x = between (whole - hi) (whole - lo) (whole - x) := by
  rw [between_eq h, between_eq (sub_le_sub_left h whole)]
  calc whole - max lo (min hi x)
      = min (whole - lo) (whole - min hi x) := (min_sub_sub_left whole lo (min hi x)).symm
    _ = min (whole - lo) (max (whole - hi) (whole - x)) := by rw [max_sub_sub_left]
    _ = max (whole - hi) (min (whole - lo) (whole - x)) := by
        rw [min_max_distrib_left, min_eq_right (sub_le_sub_left h whole)]

theorem fraction_opposite (direction : Direction) (skill margin pivot : ℚ) :
    fraction direction.opposite skill target margin pivot =
      1 - fraction direction skill target margin pivot := by
  cases direction with
  | high | near => rfl
  | low | far => exact (sub_sub_cancel 1 _).symm

/-- The caps may come in either order, and so may the mirrored ones. -/
theorem exactChance_opposite (direction : Direction) (skill : ℚ) :
    exactChance target params.mirrored direction.opposite skill =
      100 - exactChance target params direction skill := by
  have hpercent (x : ℚ) : (1 - x) * 100 = 100 - x * 100 := by ring
  unfold exactChance
  rw [sub_between min_le_max, ← hpercent, ← fraction_opposite, ← min_sub_sub_left,
    ← max_sub_sub_left, min_comm, max_comm]
  rfl

/-- Opposite challenges always have chances, and under mirrored caps they add up to a hundred. -/
theorem opposite_chances_complement (direction : Direction) (skill target : ℚ)
    (params : Params ℚ) :
    ∃ won lost : ℚ, chance? direction skill target params = some won ∧
      chance? direction.opposite skill target params.mirrored = some lost ∧ won + lost = 100 := by
  refine ⟨_, _, chance?_eq direction skill, chance?_eq direction.opposite skill, ?_⟩
  rw [exactChance_opposite, add_sub_cancel]

/-- Caps of 90 and 30, in the wrong order, are mirrored by caps of 10 and 70. -/
example : chance? .low 0 10 ⟨10, 90, 30, 60⟩ = some (90 : ℚ) ∧
    chance? .high 0 10 (Params.mirrored ⟨10, 90, 30, 60⟩) = some (10 : ℚ) := by
  decide +kernel

end Challenge

end QualityScript
