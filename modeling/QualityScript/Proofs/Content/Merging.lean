import Mathlib.Data.List.Nodup
import Mathlib.Data.List.Induction
import QualityScript.Content.Library

/-!
# Laying libraries over one another

A table is what laying its members one by one over nothing gives. So the history of a library, with
all that was ever put in, tells what the library holds: each id once, where it first came, with what
came last under it. Laying lists over one another is associative, and with it the merging of
libraries.
-/

namespace QualityScript

variable {α κ : Type} [DecidableEq κ] {key : α → κ}

theorem upsert_of_not_mem {x : α} {ys : List α} (h : key x ∉ ys.map key) :
    upsert key x ys = ys ++ [x] := by
  induction ys with
  | nil => rfl
  | cons y ys ih =>
    obtain ⟨hne, hrest⟩ := not_or.mp (List.mem_cons.not.mp h)
    rw [upsert, if_neg (Ne.symm hne), ih hrest, List.cons_append]

theorem upsert_eq_set {x : α} {ys : List α} (hdistinct : (ys.map key).Nodup) {i : Nat}
    (hi : i < ys.length) (hkey : key ys[i] = key x) : upsert key x ys = ys.set i x := by
  induction ys generalizing i with
  | nil => cases hi
  | cons y ys ih =>
    obtain ⟨hfirst, hrest⟩ := List.nodup_cons.mp hdistinct
    cases i with
    | zero =>
      rw [List.getElem_cons_zero] at hkey
      rw [upsert, if_pos hkey, List.set_cons_zero]
    | succ i =>
      rw [List.getElem_cons_succ] at hkey
      have hne : key y ≠ key x := fun e =>
        hfirst (List.mem_map.mpr ⟨_, List.getElem_mem _, hkey.trans e.symm⟩)
      rw [upsert, if_neg hne, List.set_cons_succ, ih hrest _ hkey]

/-- The second member under a key takes the place of the first one. -/
theorem upsert_upsert {x y : α} (h : key x = key y) (ys : List α) :
    upsert key x (upsert key y ys) = upsert key x ys := by
  induction ys with
  | nil => simp [upsert, h]
  | cons z ys ih => by_cases hz : key z = key y <;> simp [upsert, h, hz] at ih ⊢; exact ih

/-- Two members under different keys may change their turns when one of the keys is known. -/
theorem upsert_comm {x y : α} (hne : key x ≠ key y) {ys : List α} (hx : key x ∈ ys.map key) :
    upsert key x (upsert key y ys) = upsert key y (upsert key x ys) := by
  induction ys with
  | nil => cases hx
  | cons z ys ih =>
    by_cases hzx : key z = key x
    · simp [upsert, hzx, hne]
    · have hrest : key x ∈ ys.map key := (List.mem_cons.mp hx).resolve_left (Ne.symm hzx)
      by_cases hzy : key z = key y
      · simp [upsert, hzy, Ne.symm hne]
      · simp [upsert, hzx, hzy, ih hrest]

theorem mem_keys_upsert {x : α} {ys : List α} {k : κ} :
    k ∈ (upsert key x ys).map key ↔ k = key x ∨ k ∈ ys.map key := by
  rw [map_key_upsert]
  by_cases h : key x ∈ ys.map key
  · rw [if_pos h]
    exact ⟨.inr, fun hk => hk.elim (· ▸ h) id⟩
  · rw [if_neg h, List.mem_append, List.mem_singleton, or_comm]

/-! ## Laying lists over one another -/

/-- The members of one list, put one by one into another list. -/
def layOver (key : α → κ) (ys xs : List α) : List α := xs.foldl (fun ys x => upsert key x ys) ys

@[simp] theorem layOver_nil (ys : List α) : layOver key ys [] = ys := rfl

theorem layOver_cons (ys : List α) (x : α) (xs : List α) :
    layOver key ys (x :: xs) = layOver key (upsert key x ys) xs := rfl

theorem layOver_append (ys xs zs : List α) :
    layOver key ys (xs ++ zs) = layOver key (layOver key ys xs) zs := List.foldl_append

theorem layOver_concat (ys xs : List α) (x : α) :
    layOver key ys (xs ++ [x]) = upsert key x (layOver key ys xs) := layOver_append ys xs [x]

/-- A member under a known key may come first when what is laid over does not have the key. -/
theorem upsert_layOver {x : α} {xs ys : List α} (hx : key x ∈ ys.map key)
    (hother : key x ∉ xs.map key) :
    upsert key x (layOver key ys xs) = layOver key (upsert key x ys) xs := by
  induction xs generalizing ys with
  | nil => rfl
  | cons z xs ih =>
    obtain ⟨hne, hrest⟩ := not_or.mp (List.mem_cons.not.mp hother)
    rw [layOver_cons, layOver_cons, ih (mem_keys_upsert.mpr (.inr hx)) hrest, upsert_comm hne hx]

theorem layOver_upsert {xs : List α} (hdistinct : (xs.map key).Nodup) (ys : List α) (x : α) :
    layOver key ys (upsert key x xs) = upsert key x (layOver key ys xs) := by
  induction xs generalizing ys with
  | nil => rfl
  | cons z xs ih =>
    obtain ⟨hfirst, hrest⟩ := List.nodup_cons.mp hdistinct
    by_cases hz : key z = key x
    · have hx : key x ∈ (upsert key z ys).map key := mem_keys_upsert.mpr (.inl hz.symm)
      rw [upsert, if_pos hz, layOver_cons, layOver_cons, upsert_layOver hx (hz ▸ hfirst),
        upsert_upsert hz.symm]
    · rw [upsert, if_neg hz, layOver_cons, layOver_cons, ih hrest]

theorem nodup_layOver {ys : List α} (h : (ys.map key).Nodup) (xs : List α) :
    ((layOver key ys xs).map key).Nodup := by
  induction xs generalizing ys with
  | nil => exact h
  | cons x xs ih => exact ih (nodup_map_key_upsert h x)

/-- Laying over is associative. -/
theorem layOver_layOver {ys : List α} (h : (ys.map key).Nodup) (zs xs : List α) :
    layOver key zs (layOver key ys xs) = layOver key (layOver key zs ys) xs := by
  induction xs using List.reverseRecOn with
  | nil => rfl
  | append_singleton xs x ih =>
    rw [layOver_concat, layOver_upsert (nodup_layOver h xs), ih, layOver_concat]

/-- To lay over what a list gives is to lay over the list. -/
theorem layOver_of_nil (ys xs : List α) : layOver key ys (layOver key [] xs) = layOver key ys xs := by
  have hnil : (([] : List α).map key).Nodup := List.nodup_nil
  exact layOver_layOver hnil ys xs

/-- A list with distinct keys is what it gives when laid over nothing. -/
theorem layOver_nil_left {xs : List α} (h : (xs.map key).Nodup) : layOver key [] xs = xs := by
  induction xs using List.reverseRecOn with
  | nil => rfl
  | append_singleton xs x ih =>
    rw [List.map_append, List.nodup_append] at h
    obtain ⟨hinit, -, hnew⟩ := h
    rw [layOver_concat, ih hinit]
    exact upsert_of_not_mem fun hx => hnew _ hx _ (List.mem_singleton_self _) rfl

/-- Laid over itself, a list stays as it is. -/
theorem layOver_self {xs : List α} (h : (xs.map key).Nodup) : layOver key xs xs = xs := by
  -- The members of `ys` have been put in again already.
  suffices hpart : ∀ ys zs, (ys ++ zs).map key = xs.map key → layOver key (ys ++ zs) zs = ys ++ zs from
    hpart [] xs rfl
  intro ys zs
  induction zs generalizing ys with
  | nil => intro _; rfl
  | cons z zs ih =>
    intro heq
    have hset : upsert key z (ys ++ z :: zs) = (ys ++ z :: zs).set ys.length z :=
      upsert_eq_set (heq ▸ h) (by simp) (by simp)
    have hsame : upsert key z (ys ++ z :: zs) = ys ++ [z] ++ zs := by simp [hset]
    rw [layOver_cons, hsame, ih _ (by simpa using heq), List.append_assoc, List.singleton_append]

theorem eraseDups_concat (ks : List κ) (k : κ) :
    (ks ++ [k]).eraseDups = if k ∈ ks then ks.eraseDups else ks.eraseDups ++ [k] := by
  rw [List.eraseDups_append]
  by_cases h : k ∈ ks <;> simp [List.removeAll, List.eraseDups_cons, h]

/-- Keys stand in the order in which they first came. -/
theorem map_key_layOver (xs : List α) :
    (layOver key [] xs).map key = (xs.map key).eraseDups := by
  induction xs using List.reverseRecOn with
  | nil => rfl
  | append_singleton xs x ih =>
    rw [layOver_concat, map_key_upsert, ih, List.map_append, List.map_singleton, eraseDups_concat]
    simp only [List.mem_eraseDups]

/-- Under a key stands what came last under it. -/
theorem withKey?_layOver (xs : List α) (k : κ) :
    withKey? key k (layOver key [] xs) = xs.findRev? fun x => key x = k := by
  rw [List.findRev?_eq_find?_reverse]
  induction xs using List.reverseRecOn with
  | nil => rfl
  | append_singleton xs x ih =>
    rw [layOver_concat, List.reverse_concat, List.find?_cons]
    by_cases h : key x = k
    · subst h
      simp [withKey?_upsert_self]
    · simp [withKey?_upsert_of_ne h, ih, h]

/-! ## Tables -/

namespace Table

theorem nodup_keys (table : Table key) : (table.members.map key).Nodup := by
  rw [List.nodup_iff_injective_getElem]
  intro i j h
  have hi : i.val < table.members.length := by simpa using i.isLt
  have hj : j.val < table.members.length := by simpa using j.isLt
  have hkeys : key table.members[i.val] = key table.members[j.val] := by simpa using h
  have hplace : table.place? (key table.members[j.val]) = some i.val :=
    place?_eq_some_iff.mpr ⟨hi, hkeys⟩
  exact Fin.ext (Option.some.inj (hplace.symm.trans (place?_eq_some_iff.mpr ⟨hj, rfl⟩)))

theorem place?_eq_none_iff {table : Table key} {k : κ} :
    table.place? k = none ↔ k ∉ table.members.map key := by
  simp only [Option.eq_none_iff_forall_ne_some, ne_eq, place?_eq_some_iff, List.mem_map, not_exists,
    not_and]
  constructor
  · rintro h _ hmem rfl
    obtain ⟨i, hi, rfl⟩ := List.mem_iff_getElem.mp hmem
    exact h i hi rfl
  · exact fun h i hi => h _ (List.getElem_mem hi)

/-- Lookups through the index find what a search of the list finds. -/
theorem get?_eq (table : Table key) (k : κ) : table.get? k = withKey? key k table.members := by
  cases h : withKey? key k table.members with
  | some x => exact get?_eq_some_iff.mpr ⟨mem_of_withKey? h, key_of_withKey? h⟩
  | none =>
    refine Option.eq_none_iff_forall_ne_some.mpr fun x hx => ?_
    obtain ⟨hmem, hkey⟩ := get?_eq_some_iff.mp hx
    simpa [hkey] using List.find?_eq_none.mp h x hmem

theorem members_put (table : Table key) (x : α) :
    (table.put x).members = upsert key x table.members := by
  unfold put
  split
  · next i hi =>
    obtain ⟨hlt, hkey⟩ := place?_eq_some_iff.mp hi
    exact (upsert_eq_set table.nodup_keys hlt hkey).symm
  · next hnone => exact (upsert_of_not_mem (place?_eq_none_iff.mp hnone)).symm

theorem members_foldl_put (table : Table key) (xs : List α) :
    (xs.foldl put table).members = layOver key table.members xs := by
  induction xs generalizing table with
  | nil => rfl
  | cons x xs ih => rw [List.foldl_cons, ih, members_put, layOver_cons]

/-- What a table holds after members were put in one after the other: each key once, in the order in
which keys first came, with what came last under it. The index tells where each key stands. -/
structure Records (table : Table key) (log : List α) : Prop where
  place?_eq_some_iff : ∀ k i, table.place? k = some i ↔
    ∃ h : i < table.members.length, key table.members[i] = k
  nodup : (table.members.map key).Nodup
  order : table.members.map key = (log.map key).eraseDups
  last : ∀ k, table.get? k = log.findRev? fun x => key x = k

theorem records_of_members_eq {table : Table key} {log : List α}
    (h : table.members = layOver key [] log) : table.Records log where
  place?_eq_some_iff _ _ := place?_eq_some_iff
  nodup := table.nodup_keys
  order := by rw [h, map_key_layOver]
  last k := by rw [get?_eq, h, withKey?_layOver]

theorem members_eq_filterMap (table : Table key) :
    table.members = (table.members.map key).filterMap table.get? := by
  have hself : ∀ x ∈ table.members, (table.get? ∘ key) x = some x := fun x hx =>
    get?_eq_some_iff.mpr ⟨hx, rfl⟩
  rw [List.filterMap_map, List.filterMap_congr hself, List.filterMap_some]

/-- Tables that nobody can tell apart. -/
structure Same (a b : Table key) : Prop where
  members : a.members = b.members
  place? : ∀ k, a.place? k = b.place? k
  get? : ∀ k, a.get? k = b.get? k

/-- The list of a table tells all of it. -/
theorem same_of_members_eq {a b : Table key} (h : a.members = b.members) : a.Same b where
  members := h
  place? k := by
    refine Option.ext fun i => ?_
    simp only [place?_eq_some_iff, h]
  get? k := by rw [get?_eq, get?_eq, h]

end Table

namespace Content

open Quality

/-! ## Libraries -/

namespace Library

variable (library : Library)

theorem qualityTable_foldl_insertQuality (definitions : List Definition) :
    (definitions.foldl insertQuality library).qualityTable =
      definitions.foldl Table.put library.qualityTable := by
  induction definitions generalizing library with
  | nil => rfl
  | cons d ds ih => exact ih (library.insertQuality d)

theorem eventTable_foldl_insertQuality (definitions : List Definition) :
    (definitions.foldl insertQuality library).eventTable = library.eventTable := by
  induction definitions generalizing library with
  | nil => rfl
  | cons d ds ih => exact ih (library.insertQuality d)

theorem qualityTable_foldl_insertEvent (events : List Event) :
    (events.foldl insertEvent library).qualityTable = library.qualityTable := by
  induction events generalizing library with
  | nil => rfl
  | cons e es ih => exact ih (library.insertEvent e)

theorem eventTable_foldl_insertEvent (events : List Event) :
    (events.foldl insertEvent library).eventTable =
      events.foldl Table.put library.eventTable := by
  induction events generalizing library with
  | nil => rfl
  | cons e es ih => exact ih (library.insertEvent e)

theorem qualities_merge (other : Library) :
    (library.merge other).qualities = layOver Definition.id library.qualities other.qualities := by
  rw [qualities, merge, qualityTable_foldl_insertEvent, qualityTable_foldl_insertQuality,
    Table.members_foldl_put]
  rfl

theorem events_merge (other : Library) :
    (library.merge other).events = layOver Event.id library.events other.events := by
  rw [events, merge, eventTable_foldl_insertEvent, eventTable_foldl_insertQuality,
    Table.members_foldl_put]
  rfl

end Library

/-- How a library came about. -/
inductive History where
  | empty
  | quality (past : History) (definition : Definition)
  | event (past : History) (event : Event)
  | merge (past other : History)

namespace History

def library : History → Library
  | empty => .empty
  | quality past d => past.library.insertQuality d
  | event past e => past.library.insertEvent e
  | merge past other => past.library.merge other.library

/-- All definitions of qualities that were ever put in, the last one at the end. -/
def definitions : History → List Definition
  | empty => []
  | quality past d => past.definitions ++ [d]
  | event past _ => past.definitions
  | merge past other => past.definitions ++ other.definitions

/-- All events that were ever put in, the last one at the end. -/
def events : History → List Event
  | empty => []
  | quality past _ => past.events
  | event past e => past.events ++ [e]
  | merge past other => past.events ++ other.events

theorem qualities_library (history : History) :
    history.library.qualities = layOver Definition.id [] history.definitions := by
  induction history with
  | empty => rfl
  | quality past d ih =>
    rw [definitions, layOver_concat, ← ih]
    exact Table.members_put _ d
  | event past e ih => exact ih
  | merge past other ihpast ihother =>
    rw [library, Library.qualities_merge, ihpast, ihother, layOver_of_nil, definitions,
      layOver_append]

theorem events_library (history : History) :
    history.library.events = layOver Event.id [] history.events := by
  induction history with
  | empty => rfl
  | quality past d ih => exact ih
  | event past e ih =>
    rw [events, layOver_concat, ← ih]
    exact Table.members_put _ e
  | merge past other ihpast ihother =>
    rw [library, Library.events_merge, ihpast, ihother, layOver_of_nil, events,
      layOver_append]

end History

/-- Libraries that nobody can tell apart. -/
structure Library.Same (a b : Library) : Prop where
  qualityTable : a.qualityTable.Same b.qualityTable
  eventTable : a.eventTable.Same b.eventTable
  inCategory : ∀ category, a.inCategory category = b.inCategory category

theorem Library.same_of_lists_eq {a b : Library} (hqualities : a.qualities = b.qualities)
    (hevents : a.events = b.events) : a.Same b where
  qualityTable := Table.same_of_members_eq hqualities
  eventTable := Table.same_of_members_eq hevents
  inCategory category := by rw [Library.inCategory, Library.inCategory, hqualities]

theorem Library.inCategory_eq (library : Library) (category : String) :
    library.inCategory category =
      ((library.qualities.map Definition.id).filterMap library.quality?).filter
        (·.inCategory category) :=
  congrArg (List.filter _) library.qualityTable.members_eq_filterMap

theorem Library.nodup_inCategory (library : Library) (category : String) :
    (library.inCategory category).Nodup :=
  library.qualityTable.nodup_keys.of_map.filter _

/-- However a library came about, its indexes are exact and its lookups find what was put in last;
merging lays one library over another one as a monoid does. -/
theorem Library.index_exact_and_merge_override :
    (∀ history : History,
      history.library.qualityTable.Records history.definitions ∧
      history.library.eventTable.Records history.events ∧
      (∀ id, history.library.quality? id = history.definitions.findRev? fun d => d.id = id) ∧
      (∀ id, history.library.event? id = history.events.findRev? fun e => e.id = id) ∧
      ∀ category,
        history.library.inCategory category =
          ((history.definitions.map Definition.id).eraseDups.filterMap
            history.library.quality?).filter (·.inCategory category) ∧
        (history.library.inCategory category).Nodup) ∧
    (∀ a b c : Library, ((a.merge b).merge c).Same (a.merge (b.merge c))) ∧
    ∀ a : Library,
      (Library.empty.merge a).Same a ∧ (a.merge .empty).Same a ∧ (a.merge a).Same a := by
  refine ⟨fun history => ?_, fun a b c => ?_, fun a => ⟨?_, ?_, ?_⟩⟩
  · have hqualities := Table.records_of_members_eq history.qualities_library
    have hevents := Table.records_of_members_eq history.events_library
    refine ⟨hqualities, hevents, hqualities.last, hevents.last, fun category => ⟨?_, ?_⟩⟩
    · rw [Library.inCategory_eq, ← hqualities.order]
      rfl
    · exact history.library.nodup_inCategory category
  · apply Library.same_of_lists_eq
    · simp only [Library.qualities_merge]
      exact (layOver_layOver b.qualityTable.nodup_keys _ _).symm
    · simp only [Library.events_merge]
      exact (layOver_layOver b.eventTable.nodup_keys _ _).symm
  · apply Library.same_of_lists_eq
    · exact (Library.qualities_merge _ a).trans (layOver_nil_left a.qualityTable.nodup_keys)
    · exact (Library.events_merge _ a).trans (layOver_nil_left a.eventTable.nodup_keys)
  · exact Library.same_of_lists_eq rfl rfl
  · apply Library.same_of_lists_eq
    · exact (Library.qualities_merge a a).trans (layOver_self a.qualityTable.nodup_keys)
    · exact (Library.events_merge a a).trans (layOver_self a.eventTable.nodup_keys)

end Content

end QualityScript
