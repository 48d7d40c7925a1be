import Mathlib
import QualityScript.Proofs.Randomness.Draws

/-!
# Which places are drawn

Several members of a list are drawn by their places, and the places are distinct: whether they are
collected one by one, brought to the front of a list of all places or put into random order in the
end, every step adds a new place or only moves places. A member drawn by weight stands where its
weight takes the sum of the weights past the number that was drawn, so its weight is not zero.
-/

namespace QualityScript.Randomness

theorem le_of_upTo {width : Width} {last n x : Nat} {s s' : Source}
    (h : upTo width n last s = some (x, s')) : x ≤ last := by
  simp only [upTo] at h
  split at h
  · next hfull =>
    have hlt := s.next_lt width
    rw [← hfull] at hlt
    cases h
    exact Nat.le_of_lt_succ hlt
  · exact Nat.le_of_lt_succ (lt_of_below (Nat.succ_pos last) h)

/-- Places below a bound, none of them twice. -/
structure Distinct (bound : Nat) (places : List Nat) : Prop where
  nodup : places.Nodup
  lt : ∀ place ∈ places, place < bound

namespace Distinct

variable {bound place : Nat} {places places' : List Nat}

theorem nil (bound : Nat) : Distinct bound [] := ⟨.nil, fun _ h => by cases h⟩

theorem range (bound : Nat) : Distinct bound (List.range bound) :=
  ⟨List.nodup_range, fun _ => List.mem_range.mp⟩

theorem perm (h : Distinct bound places) (hperm : places'.Perm places) : Distinct bound places' :=
  ⟨hperm.nodup_iff.mpr h.nodup, fun place hmem => h.lt place (hperm.mem_iff.mp hmem)⟩

theorem take (h : Distinct bound places) (count : Nat) : Distinct bound (places.take count) :=
  ⟨h.nodup.sublist (places.take_sublist count),
    fun place hmem => h.lt place (List.mem_of_mem_take hmem)⟩

theorem cons (h : Distinct bound places) (hplace : place ≤ bound) (hnew : place ∉ places) :
    Distinct (bound + 1) (place :: places) where
  nodup := List.nodup_cons.mpr ⟨hnew, h.nodup⟩
  lt := List.forall_mem_cons.mpr
    ⟨Nat.lt_succ_of_le hplace, fun other hmem => Nat.lt_succ_of_lt (h.lt other hmem)⟩

theorem bound_notMem (h : Distinct bound places) : bound ∉ places :=
  fun hmem => Nat.lt_irrefl bound (h.lt bound hmem)

end Distinct

/-- A step adds the drawn place, or the index itself if the drawn place is there already. -/
theorem exists_perm_grown (ordered : Bool) {index drawn : Nat} {chosen : List Nat}
    (h : Distinct index chosen) (hdrawn : drawn ≤ index) :
    ∃ place ≤ index, place ∉ chosen ∧ (grown ordered index drawn chosen).Perm (place :: chosen) := by
  unfold grown
  cases hplace : chosen.idxOf? drawn with
  | none =>
    exact ⟨drawn, hdrawn, List.idxOf?_eq_none_iff.mp hplace, List.perm_append_singleton drawn chosen⟩
  | some place =>
    obtain ⟨hlt, -⟩ := List.idxOf?_eq_some_iff.mp hplace
    -- The earlier draws were all below the index, so it is new.
    refine ⟨index, Nat.le_refl index, h.bound_notMem, ?_⟩
    cases ordered with
    | true => exact List.perm_insertIdx index chosen (Nat.le_of_lt hlt)
    | false => exact List.perm_append_singleton index chosen

/-- By induction on the number of places that are still to come. -/
theorem distinct_floyd {attempts : Nat} {ordered : Bool} {count index : Nat}
    {chosen places : List Nat} {s s' : Source}
    (h : floyd attempts ordered count index chosen s = some (places, s'))
    (hchosen : Distinct index chosen) :
    Distinct (index + count) places ∧ places.length = chosen.length + count := by
  induction count generalizing index chosen s with
  | zero =>
    cases h
    exact ⟨hchosen, rfl⟩
  | succ count ih =>
    rw [floyd_succ] at h
    obtain ⟨⟨drawn, s₁⟩, hdrawn, hrest⟩ := Option.bind_eq_some_iff.mp h
    obtain ⟨place, hplace, hnew, hperm⟩ := exists_perm_grown ordered hchosen (le_of_upTo hdrawn)
    obtain ⟨hdistinct, hlength⟩ := ih hrest ((hchosen.cons hplace hnew).perm hperm)
    rw [hperm.length_eq, List.length_cons] at hlength
    rw [Nat.add_right_comm] at hdistinct hlength
    exact ⟨hdistinct, hlength⟩

/-! ## Moving places -/

@[simp] theorem length_swap (list : List Nat) (i j : Nat) : (swap list i j).length = list.length := by
  rw [swap, List.length_set, List.length_set]

theorem perm_swap {list : List Nat} {i j : Nat} (hi : i < list.length) (hj : j < list.length) :
    (swap list i j).Perm list := by
  rw [swap, List.getD_eq_getElem list 0 hi, List.getD_eq_getElem list 0 hj]
  exact List.set_set_perm hi hj

theorem perm_shuffle {attempts i : Nat} {list places : List Nat} {s s' : Source}
    (h : shuffle attempts i list s = some (places, s')) (hi : i < list.length) :
    places.Perm list := by
  induction i generalizing list s with
  | zero =>
    cases h
    exact .refl _
  | succ i ih =>
    rw [shuffle] at h
    split at h
    · cases h
    · next j s₁ hj =>
      have hrest := ih h (by rw [length_swap]; exact Nat.lt_of_succ_lt hi)
      exact hrest.trans (perm_swap hi (Nat.lt_of_le_of_lt (le_of_upTo hj) hi))

theorem perm_inPlace {attempts count i : Nat} {list places : List Nat} {s s' : Source}
    (h : inPlace attempts count i list s = some (places, s')) (hi : i + count ≤ list.length) :
    places.Perm list := by
  induction count generalizing i list s with
  | zero =>
    cases h
    exact .refl _
  | succ count ih =>
    rw [inPlace] at h
    split at h
    · cases h
    · next j s₁ hj =>
      have hle := le_of_upTo hj
      have hrest := ih h (by rw [length_swap]; omega)
      exact hrest.trans (perm_swap (by omega) (by omega))

/-! ## Several members -/

/-- Whichever way is taken, the places are distinct and as many as were asked for. -/
theorem distinct_indices {attempts count size : Nat} {places : List Nat} {s s' : Source}
    (hcount : count ≤ size) (h : indices attempts count size s = some (places, s')) :
    Distinct size places ∧ places.length = count := by
  have hfloyd {ordered : Bool} {list : List Nat} {s₁ : Source}
      (h : floyd attempts ordered count (size - count) [] s = some (list, s₁)) :
      Distinct size list ∧ list.length = count := by
    obtain ⟨hdistinct, hlength⟩ := distinct_floyd h (.nil _)
    rw [Nat.sub_add_cancel hcount] at hdistinct
    exact ⟨hdistinct, hlength.trans (Nat.zero_add count)⟩
  unfold indices at h
  split at h
  · obtain ⟨⟨list, s₁⟩, hlist, heq⟩ := Option.map_eq_some_iff.mp h
    cases heq
    have hperm := perm_inPlace hlist (by rw [List.length_range]; omega)
    refine ⟨((Distinct.range size).perm hperm).take count, ?_⟩
    rw [List.length_take, hperm.length_eq, List.length_range, Nat.min_eq_left hcount]
  · split at h
    · exact hfloyd h
    · next hmany =>
      split at h
      · cases h
      · next list s₁ hlist =>
        obtain ⟨hdistinct, hlength⟩ := hfloyd hlist
        have hperm := perm_shuffle h (by omega)
        exact ⟨hdistinct.perm hperm, hperm.length_eq.trans hlength⟩

theorem filterMap_range_getElem? {α : Type} (list : List α) :
    ((List.range list.length).filterMap fun place => list[place]?) = list := by
  induction list with
  | nil => rfl
  | cons x rest ih =>
    rw [List.length_cons, List.range_succ_eq_map, List.filterMap_cons, List.filterMap_map]
    exact congrArg (x :: ·) ih

/-- The members of a list at distinct places are part of it. -/
theorem Distinct.subperm {α : Type} {list : List α} {places : List Nat}
    (h : Distinct list.length places) :
    (places.filterMap fun place => list[place]?).Subperm list := by
  obtain ⟨ordered, hperm, hsublist⟩ :=
    h.nodup.subperm fun place hmem => List.mem_range.mpr (h.lt place hmem)
  refine ⟨_, hperm.filterMap _, ?_⟩
  have hmembers := hsublist.filterMap fun place => list[place]?
  rwa [filterMap_range_getElem?] at hmembers

theorem Distinct.length_filterMap {α : Type} {list : List α} {places : List Nat}
    (h : Distinct list.length places) :
    (places.filterMap fun place => list[place]?).length = places.length := by
  rw [List.filterMap_length_eq_length]
  intro place hmem
  rw [List.getElem?_eq_getElem (h.lt place hmem)]
  rfl

/-- Several members are drawn without putting any of them back, and no more than there are. -/
theorem subperm_of_chooseMany {α : Type} {list chosen : List α} {attempts count : Nat}
    {s s' : Source} (h : chooseMany attempts count list s = some (chosen, s')) :
    chosen.Subperm list ∧ chosen.length = min count list.length := by
  obtain ⟨⟨places, s₁⟩, hplaces, heq⟩ := Option.map_eq_some_iff.mp h
  cases heq
  obtain ⟨hdistinct, hlength⟩ := distinct_indices (Nat.min_le_right _ _) hplaces
  exact ⟨hdistinct.subperm, hdistinct.length_filterMap.trans hlength⟩

/-! ## Weights -/

theorem totalWeight_eq_sum (weights : List Nat) : totalWeight weights = weights.sum := by
  induction weights with
  | nil => rfl
  | cons weight rest ih => rw [totalWeight, ih, List.sum_cons]

theorem totalWeight_eq_zero_iff {weights : List Nat} :
    totalWeight weights = 0 ↔ ∀ weight ∈ weights, weight = 0 := by
  rw [totalWeight_eq_sum, List.sum_eq_zero_iff_forall_eq_nat]

/-- The sum of the weights goes past the number at the place. -/
theorem sum_take_weightedPlace {weights : List Nat} {n : Nat} (h : n < weights.sum) :
    (weights.take (weightedPlace n weights)).sum ≤ n ∧
      n < (weights.take (weightedPlace n weights + 1)).sum := by
  induction weights generalizing n with
  | nil => cases h
  | cons weight rest ih =>
    rw [List.sum_cons] at h
    unfold weightedPlace
    split
    · next hlt => simpa using hlt
    · next hge =>
      obtain ⟨hbefore, hpast⟩ := ih (n := n - weight) (by omega)
      rw [List.take_succ_cons, List.take_succ_cons, List.sum_cons, List.sum_cons]
      omega

/-- A place that is drawn by weight is the place of a weight above zero. -/
theorem pos_of_weighted {weights : List Nat} {attempts place : Nat} {s s' : Source}
    (h : weighted attempts weights s = some (some place, s')) :
    ∃ hplace : place < weights.length, 0 < weights[place] := by
  have hplace := lt_of_weighted h
  refine ⟨hplace, ?_⟩
  simp only [weighted] at h
  split at h
  · cases h
  · next htotal =>
    obtain ⟨⟨n, _⟩, hbelow, heq⟩ := Option.map_eq_some_iff.mp h
    cases heq
    have hlt := lt_of_below (Nat.pos_of_ne_zero htotal) hbelow
    rw [totalWeight_eq_sum] at hlt
    obtain ⟨hbefore, hpast⟩ := sum_take_weightedPlace hlt
    rw [List.sum_take_succ weights _ hplace] at hpast
    exact Nat.pos_of_lt_add_right (Nat.lt_of_le_of_lt hbefore hpast)

theorem zero_of_weighted {weights : List Nat} {attempts : Nat} {s s' : Source}
    (h : weighted attempts weights s = some (none, s')) :
    ∀ weight ∈ weights, weight = 0 := by
  simp only [weighted] at h
  split at h
  · next htotal => exact totalWeight_eq_zero_iff.mp htotal
  · obtain ⟨_, -, heq⟩ := Option.map_eq_some_iff.mp h
    cases heq

end QualityScript.Randomness
