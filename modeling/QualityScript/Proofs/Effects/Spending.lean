import Mathlib.Algebra.GroupWithZero.Nat
import Mathlib.Algebra.Ring.Int.Defs
import QualityScript.Proofs.Effects.Holdings

/-!
# Points spent level by level

A gain finds the number of levels that the points pay for by a search, and it may start anywhere. The
same comes of buying one level after the other. What a level and points have cost together does not
change when points are spent, and where the points would not buy another level it tells both of them.
So points that are gained in instalments buy the same levels as all of them at once.
-/

namespace QualityScript.Quality.Pyramid

open Number

/-- Level and points after buying the next level as long as the points pay for it. -/
def spend (level points : Nat) : Nat × Nat :=
  if level + 1 ≤ points then spend (level + 1) (points - (level + 1)) else (level, points)
termination_by points

/-- All the points that a level was bought with and those that are left. -/
def worth (held : Nat × Nat) : Nat := cost 0 held.1 + held.2

theorem worth_spend (level points : Nat) : worth (spend level points) = worth (level, points) := by
  fun_induction spend level points with
  | case1 level points hpaid ih =>
    have hnext := cost_succ 0 level
    rw [ih]
    simp only [worth]
    omega
  | case2 => rfl

theorem spend_snd_le (level points : Nat) : (spend level points).2 ≤ (spend level points).1 := by
  fun_induction spend level points with
  | case1 level points hpaid ih => exact ih
  | case2 level points hpaid => exact Nat.le_of_lt_succ (Nat.lt_of_not_le hpaid)

theorem cost_zero_add (level steps : Nat) :
    cost 0 (level + steps) = cost 0 level + cost level steps := by
  induction steps with
  | zero => simp [cost_zero]
  | succ steps ih =>
    rw [← Nat.add_assoc, cost_succ, cost_succ, ih]
    omega

/-- More worth is no lower level, where its points would not buy another one. -/
theorem fst_le_of_worth_le {a b : Nat × Nat} (hb : b.2 ≤ b.1) (h : worth a ≤ worth b) :
    a.1 ≤ b.1 := by
  refine Nat.le_of_not_lt fun hlower => ?_
  obtain ⟨steps, hsteps⟩ := Nat.exists_eq_add_of_lt hlower
  have hcost := cost_zero_add (b.1 + 1) steps
  have hnext := cost_succ 0 b.1
  rw [Nat.add_right_comm, ← hsteps] at hcost
  simp only [worth] at h
  omega

theorem eq_of_worth_eq {a b : Nat × Nat} (ha : a.2 ≤ a.1) (hb : b.2 ≤ b.1)
    (h : worth a = worth b) : a = b := by
  have hlevel : a.1 = b.1 := Nat.le_antisymm (fst_le_of_worth_le hb (Nat.le_of_eq h))
    (fst_le_of_worth_le ha (Nat.le_of_eq h.symm))
  refine Prod.ext hlevel ?_
  simp only [worth, hlevel] at h
  omega

/-- The number of levels bought one by one is the one that the points pay for. -/
theorem spend_eq {level points steps : Nat} (hpaid : cost level steps ≤ points)
    (hmore : points < cost level (steps + 1)) :
    spend level points = (level + steps, points - cost level steps) := by
  have hnext := cost_succ level steps
  have hlevels := cost_zero_add level steps
  refine eq_of_worth_eq (spend_snd_le level points) ?_ ?_
  · dsimp only
    omega
  · rw [worth_spend]
    simp only [worth]
    omega

theorem spend_of_le {level points : Nat} (h : points ≤ level) :
    spend level points = (level, points) := by
  rw [spend, if_neg (by omega)]

/-- Points that come later are spent as if they had been there. -/
theorem spend_spend (level points more : Nat) :
    spend (spend level points).1 ((spend level points).2 + more) = spend level (points + more) := by
  refine eq_of_worth_eq (spend_snd_le _ _) (spend_snd_le _ _) ?_
  have hspent := worth_spend level points
  rw [worth_spend, worth_spend]
  simp only [worth] at hspent ⊢
  omega

theorem le_spend_fst (level points : Nat) : level ≤ (spend level points).1 := by
  fun_induction spend level points with
  | case1 level points hpaid ih => exact Nat.le_of_succ_le ih
  | case2 => exact Nat.le_refl _

theorem spend_fst_le_of_le (level : Nat) {points points' : Nat} (h : points ≤ points') :
    (spend level points).1 ≤ (spend level points').1 := by
  obtain ⟨more, rfl⟩ := Nat.exists_eq_add_of_le h
  rw [← spend_spend]
  exact le_spend_fst _ _

/-! ## Gains -/

/-- A gain whose search for the number of steps starts with `start`. -/
def gainFrom (start : Nat) (level changePoints gained : Int64) : Int64 × Int64 :=
  let level := level.toInt.toNat
  let points := changePoints.toInt.toNat + gained.toInt.toNat
  let steps := stepsFrom start level points
  (saturate (level + steps), saturate (points - cost level steps))

theorem gain_eq_gainFrom (level changePoints gained : Int64) :
    gain level changePoints gained =
      gainFrom (guess level.toInt.toNat (changePoints.toInt.toNat + gained.toInt.toNat) 34 0)
        level changePoints gained :=
  rfl

/-- Level and points that a gain leads to, before they are brought into the range of words. -/
def exactGain (level changePoints gained : Int64) : Nat × Nat :=
  spend level.toInt.toNat (changePoints.toInt.toNat + gained.toInt.toNat)

/-- Wherever the search starts, it finds what is bought one by one. -/
theorem gainFrom_eq (start : Nat) (level changePoints gained : Int64) :
    gainFrom start level changePoints gained =
      (saturate (exactGain level changePoints gained).1,
        saturate (exactGain level changePoints gained).2) := by
  unfold exactGain gainFrom
  generalize level.toInt.toNat = level
  generalize changePoints.toInt.toNat + gained.toInt.toNat = points
  obtain ⟨hpaid, hmore⟩ := stepsFrom_spec start level points
  rw [spend_eq hpaid hmore]
  simp only [Int.natCast_add, Int.natCast_sub hpaid]

theorem gain_eq (level changePoints gained : Int64) :
    gain level changePoints gained =
      (saturate (exactGain level changePoints gained).1,
        saturate (exactGain level changePoints gained).2) := by
  rw [gain_eq_gainFrom, gainFrom_eq]

theorem limit_natCast (n : Nat) : limit n = min (n : Int) maxWord := by
  unfold limit minWord maxWord
  omega

/-- A search compares costs of at most as many steps as it starts with, or of one more than it finds.
They fit into signed words of 128 bits. -/
theorem cost_lt_of_le_max {level points start steps : Nat} (hlevel : level < 2 ^ 63)
    (hpoints : points < 2 ^ 64) (hstart : start ≤ 2 ^ 62)
    (h : steps ≤ max start (stepsFrom start level points + 1)) :
    steps * level + steps * (steps + 1) < 2 ^ 127 := by
  have hpaid := (stepsFrom_spec start level points).1
  generalize stepsFrom start level points = found at h hpaid
  have hfound : found < 2 ^ 33 := by
    refine Nat.lt_of_not_le fun hmany => ?_
    have hsquare : 2 ^ 33 * (2 ^ 33 + 1) ≤ found * (found + 1) :=
      Nat.mul_le_mul hmany (Nat.succ_le_succ hmany)
    unfold cost at hpaid
    omega
  have hsteps : steps ≤ 2 ^ 62 := by omega
  calc steps * level + steps * (steps + 1)
      ≤ 2 ^ 62 * 2 ^ 63 + 2 ^ 62 * (2 ^ 62 + 1) :=
        Nat.add_le_add (Nat.mul_le_mul hsteps (Nat.le_of_lt hlevel))
          (Nat.mul_le_mul hsteps (Nat.succ_le_succ hsteps))
    _ < 2 ^ 127 := by decide

/-- A gain leads where buying one level after the other leads, as far as words go. This is so wherever
the search for the number of steps starts; from a start that is not out of all proportion no cost that
it compares exceeds a signed word of 128 bits. -/
theorem gain_eq_spend (level changePoints gained : Int64) (hgained : 0 ≤ gained) (start : Nat) :
    let held := (max level.toInt 0).toNat
    let points := (max changePoints.toInt 0 + gained.toInt).toNat
    (gainFrom start level changePoints gained).1.toInt = min ((spend held points).1 : Int) maxWord ∧
      (gainFrom start level changePoints gained).2.toInt = min ((spend held points).2 : Int) maxWord ∧
      gain level changePoints gained = gainFrom start level changePoints gained ∧
      (start ≤ 2 ^ 62 → ∀ steps ≤ max start (stepsFrom start held points + 1),
        steps * held + steps * (steps + 1) < 2 ^ 127) := by
  intro held points
  have hnonneg : 0 ≤ gained.toInt := Int64.le_iff_toInt_le.mp hgained
  have hexact : spend held points = exactGain level changePoints gained := by
    unfold exactGain
    congr 1 <;> omega
  refine ⟨?_, ?_, ?_, fun hstart steps hsteps => cost_lt_of_le_max ?_ ?_ hstart hsteps⟩
  · rw [hexact, gainFrom_eq, toInt_saturate, limit_natCast]
  · rw [hexact, gainFrom_eq, toInt_saturate, limit_natCast]
  · rw [gain_eq, gainFrom_eq]
  · have := Int64.toInt_lt level
    omega
  · have := Int64.toInt_lt changePoints
    have := Int64.toInt_lt gained
    omega

/-- Two levels are bought for four and for five of twelve points, though the search starts far above. -/
theorem gain_eq_spend_of_seven :
    (0 : Int64) ≤ 7 ∧ gain 3 5 7 = (5, 3) ∧ gain 3 5 7 = gainFrom 100 3 5 7 ∧
      (gainFrom 100 3 5 7).1.toInt = min ((spend 3 12).1 : Int) maxWord ∧
      (gainFrom 100 3 5 7).2.toInt = min ((spend 3 12).2 : Int) maxWord := by
  have hgained : (0 : Int64) ≤ 7 := by decide
  obtain ⟨hlevel, hpoints, hsame, -⟩ := gain_eq_spend 3 5 7 hgained 100
  exact ⟨hgained, by decide +kernel, hsame, hlevel, hpoints⟩

/-! ## Instalments -/

/-- Level and change points after gains, one after the other. -/
def gainAll (gains : List Int64) (level changePoints : Int64) : Int64 × Int64 :=
  gains.foldl (fun held gained => gain held.1 held.2 gained) (level, changePoints)

def pointsOf (gains : List Int64) : Nat := (gains.map (·.toInt.toNat)).sum

/-- Level and points that several gains lead to, before they are brought into the range of words. -/
def exactGains (gains : List Int64) (level changePoints : Int64) : Nat × Nat :=
  spend level.toInt.toNat (changePoints.toInt.toNat + pointsOf gains)

variable {level changePoints gained : Int64} {gains : List Int64}

theorem gainAll_cons (gained : Int64) (rest : List Int64) (level changePoints : Int64) :
    gainAll (gained :: rest) level changePoints =
      gainAll rest (gain level changePoints gained).1 (gain level changePoints gained).2 :=
  List.foldl_cons ..

theorem toInt_gain_fst (level changePoints gained : Int64) :
    (gain level changePoints gained).1.toInt =
      min ((exactGain level changePoints gained).1 : Int) maxWord := by
  rw [gain_eq, toInt_saturate, limit_natCast]

theorem toNat_gain (h : ((exactGain level changePoints gained).1 : Int) ≤ maxWord) :
    (gain level changePoints gained).1.toInt.toNat = (exactGain level changePoints gained).1 ∧
      (gain level changePoints gained).2.toInt.toNat = (exactGain level changePoints gained).2 := by
  have hle : (exactGain level changePoints gained).2 ≤ (exactGain level changePoints gained).1 :=
    spend_snd_le _ _
  rw [gain_eq, toInt_saturate, toInt_saturate, limit_natCast, limit_natCast]
  omega

theorem le_gain_fst (level changePoints gained : Int64) :
    level ≤ (gain level changePoints gained).1 := by
  have hle : level.toInt.toNat ≤ (exactGain level changePoints gained).1 := le_spend_fst _ _
  have hword : level.toInt ≤ maxWord := Int.le_of_lt_add_one (Int64.toInt_lt level)
  rw [Int64.le_iff_toInt_le, toInt_gain_fst]
  omega

theorem le_gainAll_fst (gains : List Int64) (level changePoints : Int64) :
    level ≤ (gainAll gains level changePoints).1 := by
  induction gains generalizing level changePoints with
  | nil => exact Int64.le_refl level
  | cons gained rest ih =>
    rw [gainAll_cons]
    exact Int64.le_trans (le_gain_fst level changePoints gained) (ih _ _)

/-- The gains after one that stays in the range lead where all of them do. -/
theorem exactGains_gain (h : ((exactGain level changePoints gained).1 : Int) ≤ maxWord)
    (rest : List Int64) :
    exactGains rest (gain level changePoints gained).1 (gain level changePoints gained).2 =
      exactGains (gained :: rest) level changePoints := by
  obtain ⟨hlevel, hpoints⟩ := toNat_gain h
  rw [exactGains, hlevel, hpoints, exactGain, spend_spend, exactGains, pointsOf, pointsOf,
    List.map_cons, List.sum_cons, Nat.add_assoc]

theorem exactGains_singleton (gained level changePoints : Int64) :
    exactGains [gained] level changePoints = exactGain level changePoints gained := by
  simp only [exactGains, exactGain, pointsOf, List.map_cons, List.map_nil, List.sum_cons,
    List.sum_nil, Nat.add_zero]

/-- Gains whose levels stay in the range lead where their points do, spent at once. -/
theorem gainAll_of_le (hsome : gains ≠ [])
    (h : ((exactGains gains level changePoints).1 : Int) ≤ maxWord) :
    gainAll gains level changePoints =
      (saturate (exactGains gains level changePoints).1,
        saturate (exactGains gains level changePoints).2) := by
  induction gains generalizing level changePoints with
  | nil => exact absurd rfl hsome
  | cons gained rest ih =>
    have hlower : (exactGain level changePoints gained).1 ≤
        (exactGains (gained :: rest) level changePoints).1 :=
      spend_fst_le_of_le _ (by simp [pointsOf])
    rw [gainAll_cons]
    cases rest with
    | nil =>
      rw [exactGains_singleton]
      exact gain_eq level changePoints gained
    | cons next rest =>
      have hfirst : ((exactGain level changePoints gained).1 : Int) ≤ maxWord := by omega
      rw [← exactGains_gain hfirst] at h ⊢
      exact ih (List.cons_ne_nil _ _) h

/-- Gains that do not end at the largest word stay in the range. -/
theorem exactGains_le (hsome : gains ≠ [])
    (h : (gainAll gains level changePoints).1 < Int64.maxValue) :
    ((exactGains gains level changePoints).1 : Int) ≤ maxWord := by
  induction gains generalizing level changePoints with
  | nil => exact absurd rfl hsome
  | cons gained rest ih =>
    rw [gainAll_cons] at h
    have hfirst : ((exactGain level changePoints gained).1 : Int) ≤ maxWord := by
      have hlt := Int64.lt_iff_toInt_lt.mp (Int64.lt_of_le_of_lt (le_gainAll_fst rest _ _) h)
      rw [toInt_gain_fst] at hlt
      have hmax : Int64.maxValue.toInt = maxWord := by decide
      omega
    cases rest with
    | nil => rwa [exactGains_singleton]
    | cons next rest =>
      rw [← exactGains_gain hfirst]
      exact ih (List.cons_ne_nil _ _) h

theorem pointsOf_eq (hgains : ∀ gained ∈ gains, 0 ≤ gained) {total : Int64}
    (htotal : total.toInt = (gains.map Int64.toInt).sum) : pointsOf gains = total.toInt.toNat := by
  have hsum : (pointsOf gains : Int) = (gains.map Int64.toInt).sum := by
    clear htotal
    induction gains with
    | nil => rfl
    | cons gained rest ih =>
      obtain ⟨hgained, hrest⟩ := List.forall_mem_cons.mp hgains
      have hnonneg : 0 ≤ gained.toInt := Int64.le_iff_toInt_le.mp hgained
      have hih := ih hrest
      simp only [pointsOf, List.map_cons, List.sum_cons] at hih ⊢
      omega
  omega

theorem pointsOf_perm {order : List Int64} (h : order.Perm gains) :
    pointsOf order = pointsOf gains :=
  (h.map _).sum_nat

/-- A gain of nothing leaves what it finds exactly where the points would not buy another level. -/
theorem gain_of_nothing (h : gained.toInt = 0) :
    gain level changePoints gained = (level, changePoints) ↔
      0 ≤ changePoints ∧ changePoints ≤ level := by
  constructor
  · intro hsame
    have hspec := gain_spec level changePoints gained
    rw [hsame] at hspec
    exact hspec.2
  · rintro ⟨hnonneg, hle⟩
    have hnonneg' : 0 ≤ changePoints.toInt := Int64.le_iff_toInt_le.mp hnonneg
    have hle' := Int64.le_iff_toInt_le.mp hle
    have hexact : exactGain level changePoints gained =
        (level.toInt.toNat, changePoints.toInt.toNat) := by
      rw [exactGain, h]
      exact spend_of_le (by omega)
    have hpoints : (changePoints.toInt.toNat : Int) = changePoints.toInt := by omega
    have hlevel : (level.toInt.toNat : Int) = level.toInt := by omega
    rw [gain_eq, hexact, hlevel, hpoints, saturate_toInt, saturate_toInt]

/-- Gains below the largest level lead where one gain of all their points leads, in whatever order they
come. Only no gain at all differs from a gain of nothing, namely where the points at the start would
buy a level. -/
theorem gainAll_eq_gain_iff {total : Int64} {order : List Int64}
    (hgains : ∀ gained ∈ gains, 0 ≤ gained) (htotal : total.toInt = (gains.map Int64.toInt).sum)
    (horder : order.Perm gains)
    (hfinal : (gainAll order level changePoints).1 < Int64.maxValue ∨
      (gain level changePoints total).1 < Int64.maxValue) :
    gainAll order level changePoints = gain level changePoints total ↔
      (gains = [] → 0 ≤ changePoints ∧ changePoints ≤ level) := by
  by_cases hnone : gains = []
  · subst hnone
    rw [horder.eq_nil, eq_comm, forall_prop_of_true rfl]
    exact gain_of_nothing htotal
  · refine iff_of_true ?_ fun hempty => absurd hempty hnone
    have hsome : order ≠ [] := fun hempty => hnone (hempty ▸ horder).symm.eq_nil
    have htotal' : exactGains order level changePoints = exactGain level changePoints total := by
      rw [exactGains, pointsOf_perm horder, pointsOf_eq hgains htotal, exactGain]
    have hle : ((exactGains order level changePoints).1 : Int) ≤ maxWord := by
      obtain hlast | honce := hfinal
      · exact exactGains_le hsome hlast
      · rw [htotal', ← exactGains_singleton]
        exact exactGains_le (List.cons_ne_nil _ _) honce
    rw [gainAll_of_le hsome hle, htotal', gain_eq]

/-- Five points at level zero buy two levels as soon as any gain is made, even one of nothing. -/
theorem no_gain_ne_gain_of_nothing :
    (0 : Int64).toInt = (([] : List Int64).map Int64.toInt).sum ∧
      (gain 0 5 0).1 < Int64.maxValue ∧ gainAll [] 0 5 = (0, 5) ∧ gain 0 5 0 = (2, 2) ∧
      gainAll [] 0 5 ≠ gain 0 5 0 := by
  decide +kernel

/-- Seven points in three instalments, in another order than they are listed. -/
theorem gainAll_eq_gain_iff_of_three :
    (∀ gained ∈ ([4, 3, 0] : List Int64), 0 ≤ gained) ∧
      (7 : Int64).toInt = (([4, 3, 0] : List Int64).map Int64.toInt).sum ∧
      ([3, 0, 4] : List Int64).Perm [4, 3, 0] ∧
      gainAll [3, 0, 4] 3 5 = (5, 3) ∧ gainAll [3, 0, 4] 3 5 = gain 3 5 7 := by
  have hgains : ∀ gained ∈ ([4, 3, 0] : List Int64), 0 ≤ gained :=
    List.forall_mem_cons.mpr ⟨by decide, List.forall_mem_cons.mpr
      ⟨by decide, List.forall_mem_singleton.mpr (by decide)⟩⟩
  have htotal : (7 : Int64).toInt = (([4, 3, 0] : List Int64).map Int64.toInt).sum := by decide
  have horder : ([3, 0, 4] : List Int64).Perm [4, 3, 0] := by decide
  have hend : gainAll [3, 0, 4] 3 5 = (5, 3) := by decide +kernel
  have hfinal : (gainAll [3, 0, 4] 3 5).1 < Int64.maxValue := by
    rw [hend]
    decide
  exact ⟨hgains, htotal, horder, hend,
    (gainAll_eq_gain_iff hgains htotal horder (.inl hfinal)).mpr fun h => nomatch h⟩

end QualityScript.Quality.Pyramid
