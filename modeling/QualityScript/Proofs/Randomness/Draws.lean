import QualityScript.Randomness.Draw

/-!
# What draws do to their source

A draw goes forward in the stream of its source. On a source whose rejection loops end, it passes
over finitely many words, and every larger bound on them gives the same result. These facts hold of
the single loops and are carried to every draw that is built from them.
-/

namespace QualityScript.Randomness

namespace Source

/-- `s'` is `s` after some more words. -/
structure Before (s s' : Source) : Prop where
  stream_eq : s'.stream = s.stream
  position_le : s.position ≤ s'.position

theorem Before.refl (s : Source) : s.Before s := ⟨rfl, Nat.le_refl _⟩

theorem Before.trans {a b c : Source} (h : a.Before b) (h' : b.Before c) : a.Before c :=
  ⟨h'.stream_eq.trans h.stream_eq, Nat.le_trans h.position_le h'.position_le⟩

theorem before_next (s : Source) (width : Width) : s.Before (s.next width).2 :=
  ⟨rfl, Nat.le_add_right _ _⟩

/-- Every rejection loop ends, wherever in the rest of the source it starts. -/
structure Accepting (s : Source) : Prop where
  upTo : ∀ {s'}, s.Before s' → ∀ width last, ∃ n, (upTo width n last s').isSome
  weighted : ∀ {s'}, s.Before s' → ∀ total,
    ∃ n, (below .w64 total (moduloZone .w64 total) n s').isSome
  percent : ∀ {s'}, s.Before s' → ∃ n, (percent n s').isSome

theorem Accepting.later {s s' : Source} (h : s.Accepting) (hs : s.Before s') : s'.Accepting :=
  ⟨fun h' => h.upTo (hs.trans h'), fun h' => h.weighted (hs.trans h'),
    fun h' => h.percent (hs.trans h')⟩

end Source

/-! ## One loop -/

theorem below_mono {width : Width} {size zone n k : Nat} {s : Source} {r : Nat × Source}
    (h : below width size zone n s = some r) (hk : n ≤ k) : below width size zone k s = some r := by
  induction n generalizing k s with
  | zero => simp [below] at h
  | succ n ih =>
    obtain ⟨k, rfl⟩ := Nat.exists_eq_add_of_le' hk
    simp only [below] at h ⊢
    split at h
    · next hzone => rw [if_pos hzone]; exact h
    · next hzone => rw [if_neg hzone]; exact ih h (Nat.le_of_succ_le_succ hk)

theorem before_of_below {width : Width} {size zone n x : Nat} {s s' : Source}
    (h : below width size zone n s = some (x, s')) : s.Before s' := by
  induction n generalizing s with
  | zero => simp [below] at h
  | succ n ih =>
    simp only [below] at h
    split at h
    · cases h; exact s.before_next width
    · exact (s.before_next width).trans (ih h)

theorem lt_of_below {width : Width} {size zone n x : Nat} {s s' : Source} (hsize : 0 < size)
    (h : below width size zone n s = some (x, s')) : x < size := by
  induction n generalizing s with
  | zero => simp [below] at h
  | succ n ih =>
    simp only [below] at h
    split at h
    · cases h
      exact Nat.div_lt_of_lt_mul (Nat.mul_lt_mul_of_pos_right (s.next_lt width) hsize)
    · exact ih h

theorem upTo_mono {width : Width} {last n k : Nat} {s : Source} {r : Nat × Source}
    (h : upTo width n last s = some r) (hk : n ≤ k) : upTo width k last s = some r := by
  simp only [upTo] at h ⊢
  split at h
  · next hfull => rw [if_pos hfull]; exact h
  · next hfull => rw [if_neg hfull]; exact below_mono h hk

theorem before_of_upTo {width : Width} {last n x : Nat} {s s' : Source}
    (h : upTo width n last s = some (x, s')) : s.Before s' := by
  simp only [upTo] at h
  split at h
  · cases h; exact s.before_next width
  · exact before_of_below h

theorem percent_mono {n k : Nat} {s : Source} {r : Float × Source} (h : percent n s = some r)
    (hk : n ≤ k) : percent k s = some r := by
  induction n generalizing k s with
  | zero => simp [percent] at h
  | succ n ih =>
    obtain ⟨k, rfl⟩ := Nat.exists_eq_add_of_le' hk
    simp only [percent] at h ⊢
    split at h
    · next hlt => rw [if_pos hlt]; exact h
    · next hlt => rw [if_neg hlt]; exact ih h (Nat.le_of_succ_le_succ hk)

theorem before_of_percent {n : Nat} {x : Float} {s s' : Source} (h : percent n s = some (x, s')) :
    s.Before s' := by
  induction n generalizing s with
  | zero => simp [percent] at h
  | succ n ih =>
    simp only [percent] at h
    split at h
    · cases h; exact s.before_next .w64
    · exact (s.before_next .w64).trans (ih h)

/-! ## Draws with a bound -/

/-- The draws of one kind with every bound on the words passed over: they go forward, a result stays
the same with a larger bound, and on a source whose loops end all large enough bounds give one. -/
structure Draw.Proper {α : Type} (d : Nat → Draw α) : Prop where
  before : ∀ {n s x s'}, d n s = some (x, s') → s.Before s'
  mono : ∀ {n k s r}, d n s = some r → n ≤ k → d k s = some r
  ends : ∀ {s}, s.Accepting → ∃ n x s', ∀ k, n ≤ k → d k s = some (x, s')

namespace Draw.Proper

theorem of_mono {α : Type} {d : Nat → Draw α}
    (before : ∀ {n s x s'}, d n s = some (x, s') → s.Before s')
    (mono : ∀ {n k s r}, d n s = some r → n ≤ k → d k s = some r)
    (some : ∀ {s}, s.Accepting → ∃ n, (d n s).isSome) : Draw.Proper d where
  before := before
  mono := mono
  ends := fun h => by
    obtain ⟨n, hn⟩ := some h
    obtain ⟨⟨x, s'⟩, hr⟩ := Option.isSome_iff_exists.mp hn
    exact ⟨n, x, s', fun k hk => mono hr hk⟩

theorem pure {α : Type} (x : α) : Draw.Proper fun _ s => some (x, s) where
  before := fun h => by cases h; exact .refl _
  mono := fun h _ => h
  ends := fun {s} _ => ⟨0, x, s, fun _ _ => rfl⟩

theorem bind {α β : Type} {d : Nat → Draw α} {e : α → Nat → Draw β} {f : Nat → Draw β}
    (hd : Draw.Proper d) (he : ∀ x, Draw.Proper (e x))
    (hf : ∀ n s, f n s = (d n s).bind fun r => e r.1 n r.2) : Draw.Proper f where
  before := fun {n s y s'} h => by
    rw [hf] at h
    obtain ⟨⟨x, s₁⟩, hx, hy⟩ := Option.bind_eq_some_iff.mp h
    exact (hd.before hx).trans ((he x).before hy)
  mono := fun {n k s r} h hk => by
    rw [hf] at h ⊢
    obtain ⟨⟨x, s₁⟩, hx, hy⟩ := Option.bind_eq_some_iff.mp h
    rw [hd.mono hx hk]
    exact (he x).mono hy hk
  ends := fun {s} hs => by
    obtain ⟨n, x, s₁, hn⟩ := hd.ends hs
    obtain ⟨m, y, s₂, hm⟩ := (he x).ends (hs.later (hd.before (hn n (Nat.le_refl n))))
    refine ⟨max n m, y, s₂, fun k hk => ?_⟩
    rw [hf, hn k (by omega)]
    exact hm k (by omega)

theorem map {α β : Type} {d : Nat → Draw α} (hd : Draw.Proper d) (f : α → β) :
    Draw.Proper fun n s => (d n s).map fun r => (f r.1, r.2) where
  before := fun {n s y s'} h => by
    obtain ⟨⟨x, s₁⟩, hx, heq⟩ := Option.map_eq_some_iff.mp h
    cases heq
    exact hd.before hx
  mono := fun {n k s r} h hk => by
    obtain ⟨r₁, hr, heq⟩ := Option.map_eq_some_iff.mp h
    rw [hd.mono hr hk, Option.map_some, heq]
  ends := fun {s} hs => by
    obtain ⟨n, x, s₁, hn⟩ := hd.ends hs
    exact ⟨n, f x, s₁, fun k hk => by simp only [hn k hk, Option.map_some]⟩

end Draw.Proper

/-! ## The draws of the language -/

theorem proper_upTo (width : Width) (last : Nat) : Draw.Proper fun n => upTo width n last :=
  .of_mono before_of_upTo upTo_mono fun h => h.upTo (.refl _) width last

theorem proper_percent : Draw.Proper percent :=
  .of_mono before_of_percent percent_mono fun h => h.percent (.refl _)

theorem proper_between (lo hi : Int64) : Draw.Proper fun n => between n lo hi :=
  (proper_upTo .w64 (hi.toInt - lo.toInt).toNat).map fun n =>
    Int64.ofInt ((if (hi.toInt - lo.toInt).toNat + 1 = Width.w64.size then 0 else lo.toInt) + n)

theorem proper_choose {α : Type} (list : List α) : Draw.Proper fun n => choose n list := by
  cases list with
  | nil => exact .pure none
  | cons x xs => exact (proper_upTo .w32 _).map _

theorem mem_of_choose {α : Type} {list : List α} {n : Nat} {x : α} {s s' : Source}
    (h : choose n list s = some (some x, s')) : x ∈ list := by
  cases list with
  | nil => simp [choose] at h
  | cons y ys =>
    obtain ⟨⟨i, s₁⟩, -, heq⟩ := Option.map_eq_some_iff.mp h
    exact List.mem_of_getElem? (Prod.mk.inj heq).1

theorem mem_of_chooseMany {α : Type} {list chosen : List α} {n count : Nat} {s s' : Source}
    (h : chooseMany n count list s = some (chosen, s')) : ∀ x ∈ chosen, x ∈ list := by
  obtain ⟨⟨places, s₁⟩, -, heq⟩ := Option.map_eq_some_iff.mp h
  obtain ⟨rfl, -⟩ := Prod.mk.inj heq
  intro x hx
  obtain ⟨place, -, hplace⟩ := List.mem_filterMap.mp hx
  exact List.mem_of_getElem? hplace

/-- The places after one step of Floyd's choice. -/
def grown (ordered : Bool) (index drawn : Nat) (chosen : List Nat) : List Nat :=
  (chosen.idxOf? drawn).elim (chosen ++ [drawn]) fun place =>
    if ordered then chosen.insertIdx place index else chosen ++ [index]

theorem floyd_succ (attempts : Nat) (ordered : Bool) (count index : Nat) (chosen : List Nat)
    (s : Source) :
    floyd attempts ordered (count + 1) index chosen s =
      (upTo .w32 attempts index s).bind fun r =>
        floyd attempts ordered count (index + 1) (grown ordered index r.1 chosen) r.2 := by
  rw [floyd]
  rcases upTo .w32 attempts index s with _ | ⟨drawn, s'⟩
  · rfl
  · change floyd attempts ordered count (index + 1) _ s' =
      floyd attempts ordered count (index + 1) _ s'
    congr 1
    unfold grown
    cases chosen.idxOf? drawn <;> rfl

theorem proper_floyd (ordered : Bool) (count index : Nat) (chosen : List Nat) :
    Draw.Proper fun n => floyd n ordered count index chosen := by
  induction count generalizing index chosen with
  | zero => exact .pure chosen
  | succ count ih =>
    exact (proper_upTo .w32 index).bind
      (fun drawn => ih (index + 1) (grown ordered index drawn chosen))
      fun n s => floyd_succ n ordered count index chosen s

theorem proper_shuffle (i : Nat) (list : List Nat) : Draw.Proper fun n => shuffle n i list := by
  induction i generalizing list with
  | zero => exact .pure list
  | succ i ih =>
    refine (proper_upTo .w32 (i + 1)).bind (fun j => ih (swap list (i + 1) j)) fun n s => ?_
    rw [shuffle]
    cases upTo .w32 n (i + 1) s <;> rfl

theorem proper_inPlace (count i : Nat) (list : List Nat) :
    Draw.Proper fun n => inPlace n count i list := by
  induction count generalizing i list with
  | zero => exact .pure list
  | succ count ih =>
    refine (proper_upTo .w32 (list.length - 1 - i)).bind
      (fun j => ih (i + 1) (swap list i (i + j))) fun n s => ?_
    rw [inPlace]
    cases upTo .w32 n (list.length - 1 - i) s <;> rfl

theorem proper_indices (count size : Nat) : Draw.Proper fun n => indices n count size := by
  unfold indices
  split
  · exact (proper_inPlace count 0 (List.range size)).map _
  · split
    · exact proper_floyd true count (size - count) []
    · refine (proper_floyd false count (size - count) []).bind (proper_shuffle (count - 1))
        fun n s => ?_
      cases floyd n false count (size - count) [] s <;> rfl

theorem proper_chooseMany {α : Type} (count : Nat) (list : List α) :
    Draw.Proper fun n => chooseMany n count list :=
  (proper_indices _ _).map _

theorem proper_weighted (weights : List Nat) : Draw.Proper fun n => weighted n weights := by
  have hbelow : Draw.Proper fun n =>
      below .w64 (totalWeight weights) (moduloZone .w64 (totalWeight weights)) n :=
    .of_mono before_of_below below_mono fun h => h.weighted (.refl _) _
  unfold weighted
  by_cases h : totalWeight weights = 0
  · simp only [h, if_true]
    exact .pure none
  · simp only [h, if_false]
    exact hbelow.map fun n => some (weightedPlace n weights)

theorem weightedPlace_lt {weights : List Nat} {n : Nat} (h : n < totalWeight weights) :
    weightedPlace n weights < weights.length := by
  induction weights generalizing n with
  | nil => cases h
  | cons weight rest ih =>
    simp only [totalWeight] at h
    simp only [weightedPlace, List.length_cons]
    split
    · omega
    · have := ih (n := n - weight) (by omega)
      omega

theorem lt_of_weighted {weights : List Nat} {n place : Nat} {s s' : Source}
    (h : weighted n weights s = some (some place, s')) : place < weights.length := by
  simp only [weighted] at h
  split at h
  · cases h
  · next htotal =>
    obtain ⟨⟨x, _⟩, hbelow, heq⟩ := Option.map_eq_some_iff.mp h
    cases heq
    exact weightedPlace_lt (lt_of_below (Nat.pos_of_ne_zero htotal) hbelow)

/-! ## A source whose loops end -/

theorem next_of_zeros {s : Source} (h : Source.zeros.Before s) (width : Width) :
    (s.next width).1 = 0 := by
  obtain ⟨stream, position⟩ := s
  cases h.stream_eq
  cases width <;> rfl

/-- Zero is in every zone. -/
theorem isSome_below_of_zeros {s : Source} (h : Source.zeros.Before s) (width : Width)
    (size zone : Nat) : (below width size zone 1 s).isSome := by
  simp [below, next_of_zeros h]

theorem accepting_zeros : Source.zeros.Accepting where
  upTo := fun h width last => by
    refine ⟨1, ?_⟩
    unfold upTo
    split
    · rfl
    · exact isSome_below_of_zeros h width _ _
  weighted := fun h total => ⟨1, isSome_below_of_zeros h .w64 total _⟩
  percent := fun h => by
    have hlt : Float.ofNat (0 / 4096) / Float.ofNat percentUnits * 100 < 100 := by decide +kernel
    exact ⟨1, by simp [percent, next_of_zeros h, hlt]⟩

end QualityScript.Randomness
