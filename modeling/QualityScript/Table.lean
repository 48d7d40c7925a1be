/-!
# Lists with keys and tables with an index

A list whose members have distinct keys remembers the order in which its keys first came. `upsert`
replaces the member with the same key where it stands, or adds a new one at the end.

A table is such a list with an index that gives the place of every key. Members are looked up through
the index. Putting a member in replaces the one with its key where it stands, or adds it at the end.
-/

namespace QualityScript

variable {α κ : Type} [DecidableEq κ]

/-- Replaces the member with the key of `x`, or adds `x` at the end. -/
def upsert (key : α → κ) (x : α) : List α → List α
  | [] => [x]
  | y :: ys => if key y = key x then x :: ys else y :: upsert key x ys

def withKey? (key : α → κ) (k : κ) (ys : List α) : Option α := ys.find? fun y => key y = k

def withoutKey (key : α → κ) (k : κ) (ys : List α) : List α := ys.filter fun y => key y ≠ k

@[simp] theorem withKey?_nil (key : α → κ) (k : κ) : withKey? key k [] = none := rfl

theorem withKey?_cons (key : α → κ) (k : κ) (y : α) (ys : List α) :
    withKey? key k (y :: ys) = if key y = k then some y else withKey? key k ys := by
  by_cases h : key y = k <;> simp [withKey?, h]

/-- What was put under a key is found under it. -/
theorem withKey?_upsert_self (key : α → κ) (x : α) (ys : List α) :
    withKey? key (key x) (upsert key x ys) = some x := by
  induction ys with
  | nil => simp [upsert, withKey?_cons]
  | cons y ys ih =>
    by_cases h : key y = key x <;> simp [upsert, withKey?_cons, h, ih]

/-- Other keys are left as they were. -/
theorem withKey?_upsert_of_ne {key : α → κ} {x : α} {k : κ} (h : key x ≠ k) (ys : List α) :
    withKey? key k (upsert key x ys) = withKey? key k ys := by
  induction ys with
  | nil => simp [upsert, withKey?_cons, h]
  | cons y ys ih =>
    by_cases hy : key y = key x
    · simp [upsert, withKey?_cons, hy, h]
    · simp [upsert, withKey?_cons, hy, ih]

theorem key_of_withKey? {key : α → κ} {k : κ} {ys : List α} {y : α}
    (h : withKey? key k ys = some y) : key y = k := by
  simpa using List.find?_some h

theorem mem_of_withKey? {key : α → κ} {k : κ} {ys : List α} {y : α}
    (h : withKey? key k ys = some y) : y ∈ ys := List.mem_of_find?_eq_some h

/-- The keys keep their order; a new one comes last. -/
theorem map_key_upsert (key : α → κ) (x : α) (ys : List α) :
    (upsert key x ys).map key =
      if key x ∈ ys.map key then ys.map key else ys.map key ++ [key x] := by
  induction ys with
  | nil => simp [upsert]
  | cons y ys ih =>
    by_cases h : key y = key x
    · simp [upsert, h]
    · have h' : key x ≠ key y := fun e => h e.symm
      by_cases hm : key x ∈ ys.map key <;> simp_all [upsert]

theorem nodup_map_key_upsert {key : α → κ} {ys : List α} (h : (ys.map key).Nodup) (x : α) :
    ((upsert key x ys).map key).Nodup := by
  rw [map_key_upsert]
  split
  · exact h
  · next hm =>
    rw [List.nodup_append]
    exact ⟨h, by simp, fun a ha b hb e => hm (by simp at hb; subst hb; exact e ▸ ha)⟩

def placeIn? (index : List (κ × Nat)) (k : κ) : Option Nat :=
  (withKey? Prod.fst k index).map Prod.snd

theorem placeIn?_upsert (index : List (κ × Nat)) (k k' : κ) (i : Nat) :
    placeIn? (upsert Prod.fst (k, i) index) k' = if k = k' then some i else placeIn? index k' := by
  by_cases h : k = k'
  · subst h
    simp [placeIn?, withKey?_upsert_self Prod.fst (k, i) index]
  · have hother : withKey? Prod.fst k' (upsert Prod.fst (k, i) index) = withKey? Prod.fst k' index :=
      withKey?_upsert_of_ne h index
    simp [placeIn?, hother, h]

/-- An index gives a place for a key when the member there has that key. -/
def IsIndex (key : α → κ) (members : List α) (index : List (κ × Nat)) : Prop :=
  ∀ k i, placeIn? index k = some i ↔ members[i]?.map key = some k

theorem isIndex_nil (key : α → κ) : IsIndex key [] [] := by
  simp [IsIndex, placeIn?]

/-- A member gives way to another one with its key. -/
theorem IsIndex.set {key : α → κ} {members : List α} {index : List (κ × Nat)} {x : α} {i : Nat}
    (hindex : IsIndex key members index) (hi : placeIn? index (key x) = some i) :
    IsIndex key (members.set i x) index := by
  intro k j
  obtain ⟨_, hy, hkey⟩ := Option.map_eq_some_iff.mp ((hindex (key x) i).mp hi)
  obtain ⟨hlt, rfl⟩ := List.getElem?_eq_some_iff.mp hy
  rw [hindex k j, List.getElem?_set]
  by_cases h : i = j
  · subst h
    simp [hkey, hlt]
  · simp [h]

/-- A member with a new key comes at the end, and the index learns its place. -/
theorem IsIndex.append {key : α → κ} {members : List α} {index : List (κ × Nat)} {x : α}
    (hindex : IsIndex key members index) (hnew : placeIn? index (key x) = none) :
    IsIndex key (members ++ [x]) (upsert Prod.fst (key x, members.length) index) := by
  intro k j
  have hother : members[j]?.map key ≠ some (key x) := fun h => by
    simp [(hindex (key x) j).mpr h] at hnew
  rw [placeIn?_upsert]
  obtain hlt | hge := Nat.lt_or_ge j members.length
  · rw [List.getElem?_append_left hlt]
    by_cases hk : key x = k
    · subst hk
      simp [hother, (Nat.ne_of_lt hlt).symm]
    · simp [hk, hindex k j]
  · have hnone : placeIn? index k ≠ some j := fun h => by
      simpa [List.getElem?_eq_none hge] using (hindex k j).mp h
    rw [List.getElem?_append_right hge]
    by_cases hj : j = members.length
    · subst hj
      by_cases hk : key x = k <;> simp [hk, hnone]
    · have hpast : 0 < j - members.length := Nat.sub_pos_of_lt (Nat.lt_of_le_of_ne hge (Ne.symm hj))
      have hend : [x][j - members.length]? = none := List.getElem?_eq_none hpast
      by_cases hk : key x = k <;> simp [hk, hnone, hend, Ne.symm hj]

/-- Members with distinct keys, and where each of them stands. -/
structure Table (key : α → κ) where
  members : List α
  index : List (κ × Nat)
  exact : IsIndex key members index

namespace Table

variable {key : α → κ}

def empty : Table key := ⟨[], [], isIndex_nil key⟩

def place? (table : Table key) (k : κ) : Option Nat := placeIn? table.index k

theorem place?_eq_some_iff {table : Table key} {k : κ} {i : Nat} :
    table.place? k = some i ↔ ∃ h : i < table.members.length, key table.members[i] = k := by
  rw [place?, table.exact k i, Option.map_eq_some_iff]
  constructor
  · rintro ⟨x, hx, hk⟩
    obtain ⟨hlt, rfl⟩ := List.getElem?_eq_some_iff.mp hx
    exact ⟨hlt, hk⟩
  · rintro ⟨hlt, hk⟩
    exact ⟨_, List.getElem?_eq_getElem hlt, hk⟩

theorem lt_of_place? {table : Table key} {k : κ} {i : Nat} (h : table.place? k = some i) :
    i < table.members.length :=
  (place?_eq_some_iff.mp h).1

def get? (table : Table key) (k : κ) : Option α :=
  match h : table.place? k with
  | some i =>
    have hlt := lt_of_place? h
    some table.members[i]
  | none => none

theorem get?_eq_some_iff {table : Table key} {k : κ} {x : α} :
    table.get? k = some x ↔ x ∈ table.members ∧ key x = k := by
  unfold get?
  constructor
  · intro h
    split at h
    · next i hi =>
      cases h
      exact ⟨List.getElem_mem _, (place?_eq_some_iff.mp hi).2⟩
    · cases h
  · rintro ⟨hmem, rfl⟩
    obtain ⟨i, hlt, rfl⟩ := List.mem_iff_getElem.mp hmem
    have hplace : table.place? (key table.members[i]) = some i := place?_eq_some_iff.mpr ⟨hlt, rfl⟩
    split
    · next j hj =>
      cases hplace.symm.trans hj
      rfl
    · next hnone => cases hplace.symm.trans hnone

/-- Replaces the member with the key of `x`, or adds `x` at the end. -/
def put (table : Table key) (x : α) : Table key :=
  match h : table.place? (key x) with
  | some i => ⟨table.members.set i x, table.index, table.exact.set h⟩
  | none =>
    ⟨table.members ++ [x], upsert Prod.fst (key x, table.members.length) table.index,
      table.exact.append h⟩

instance [DecidableEq α] : DecidableEq (Table key) := fun a b =>
  decidable_of_iff (a.members = b.members ∧ a.index = b.index) (by cases a; cases b; simp)

instance [Repr α] : Repr (Table key) := ⟨fun table precedence => reprPrec table.members precedence⟩

end Table

end QualityScript
