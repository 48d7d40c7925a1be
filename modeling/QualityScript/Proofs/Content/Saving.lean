import QualityScript.Content.File
import QualityScript.Proofs.Content.Merging
import QualityScript.Proofs.Ron.Values

/-!
# Saved content is loaded again

Every record of a content file is written with all its fields, in the order in which the reader knows
them, so each is read back as it was. What keeps a library from being refused is that its tables hold
each id once; and laying its lists over nothing gives the same lists.
-/

namespace QualityScript

namespace Quality

theorem insertVariant_of_last {key text : String} {list : List (String × String)}
    (h : ∀ entry ∈ list, entry.1 < key) : insertVariant key text list = list ++ [(key, text)] := by
  induction list with
  | nil => rfl
  | cons first rest ih =>
    obtain ⟨k, t⟩ := first
    have hk : k < key := h _ (.head _)
    have hlt : ¬key < k := String.not_lt.mpr (Std.le_of_lt hk)
    have hne : key ≠ k := fun heq => String.lt_irrefl k (heq ▸ hk)
    rw [insertVariant, if_neg hlt, if_neg hne, ih fun entry hmem => h entry (.tail _ hmem),
      List.cons_append]

theorem Variants.ofList_entries (variants : Variants) : Variants.ofList variants.entries = variants := by
  -- What has been put in so far goes on with what is left.
  suffices hpart : ∀ (list : List (String × String)) (done : Variants),
      (done.entries ++ list).Pairwise (fun a b => a.1 < b.1) →
      (list.foldl (fun variants entry => variants.insert entry.1 entry.2) done).entries =
        done.entries ++ list by
    have hentries := hpart variants.entries .empty variants.ordered
    cases variants
    exact Variants.mk.injEq .. ▸ hentries
  intro list
  induction list with
  | nil => exact fun done _ => (List.append_nil _).symm
  | cons first rest ih =>
    intro done hordered
    obtain ⟨key, text⟩ := first
    have hlast : ∀ entry ∈ done.entries, entry.1 < key := fun entry hmem =>
      (List.pairwise_append.mp hordered).2.2 entry hmem _ (.head _)
    have hinsert : (done.insert key text).entries = done.entries ++ [(key, text)] :=
      insertVariant_of_last hlast
    rw [List.foldl_cons, ih _ (by rw [hinsert]; simpa using hordered), hinsert, List.append_assoc,
      List.singleton_append]

end Quality

namespace Content

open Quality Ron Reader

theorem EventKind.ofLabel?_label (kind : EventKind) : EventKind.ofLabel? kind.label = some kind := by
  cases kind <;> decide

/-! ## Parts of records -/

theorem reads_ofTexts (list : List String) (level : Nat) :
    Reads Reading.texts 2 (write level (ofTexts list)) list := by
  refine reads_list level ?_
  induction list with
  | nil => exact .nil
  | cons s list ih => exact .cons (reads_text s) ih

theorem reads_ofOptionalText (text : Option String) (level : Nat) :
    Reads Reading.optionalText 1 (write level (ofOptionalText text)) text := by
  cases text with
  | none => exact reads_none.mono (Nat.zero_le _)
  | some s => exact (reads_text s).some

theorem reads_variants (variants : Variants) (level : Nat) :
    Reads Reading.variants 2
      (write level (.map (variants.entries.map fun (key, variant) => (.text key, .text variant))))
      variants := by
  suffices h : Reads (entries text text) 2
      (write level (.map (variants.entries.map fun (key, variant) => (.text key, .text variant))))
      variants.entries by
    have hlist := h.map Variants.ofList
    rwa [variants.ofList_entries] at hlist
  refine reads_entries level ?_
  induction variants.entries with
  | nil => exact .nil
  | cons entry list ih =>
    exact .cons (reads_labelled (reads_text entry.1).deeper (reads_text entry.2)) ih

theorem reads_kind (kind : Kind) : Reads (word Kind.ofLabel?) 1 kind.label.toList kind :=
  reads_word (by cases kind <;> rfl) (Kind.ofLabel?_label kind)

theorem reads_eventKind (kind : EventKind) :
    Reads (word EventKind.ofLabel?) 1 kind.label.toList kind :=
  reads_word (by cases kind <;> rfl) (EventKind.ofLabel?_label kind)

/-! ## Records -/

theorem reads_ofDefinition (d : Definition) (level : Nat) :
    Reads Reading.definition 4 (write level (ofDefinition d)) d := by
  apply reads_record (by decide)
  case h =>
    exact .required (reads_text d.id) rfl (by decide) <|
      .optional (reads_text d.name) rfl (by decide) <|
      .optional (reads_text d.description) rfl (by decide) <|
      .optional (reads_kind d.kind) rfl (by decide) <|
      .optional (reads_text d.category) rfl (by decide) <|
      .optional (reads_ofOptionalText d.plural _) rfl (by decide) <|
      .optional (reads_variants d.variants _) rfl (by decide) <|
      .optional (reads_text d.bonus) rfl (by decide) <|
      .optional (reads_ofTexts d.tags _) rfl (by decide) <|
      .optional (reads_ofOptionalText d.image _) rfl (by decide) .nil
  case ha => rfl

theorem reads_ofEventOption (o : EventOption) (level : Nat) :
    Reads Reading.eventOption 4 (write level (ofEventOption o)) o := by
  apply reads_record (by decide)
  case h =>
    exact .required (reads_text o.id) rfl (by decide) <|
      .optional (reads_text o.name) rfl (by decide) <|
      .optional (reads_text o.description) rfl (by decide) <|
      .optional (reads_ofTexts o.requirements _) rfl (by decide) <|
      .optional (reads_ofOptionalText o.challenge _) rfl (by decide) <|
      .optional (reads_ofTexts o.successEffects _) rfl (by decide) <|
      .optional (reads_ofTexts o.failureEffects _) rfl (by decide) .nil
  case ha => rfl

theorem reads_records {α : Type} {value : Reader α} {levels : Nat} {write' : α → Ron}
    (h : ∀ a level, Reads value levels (write level (write' a)) a) (records : List α)
    (level : Nat) :
    Reads (list value) (levels + 2) (write level (.list (records.map write'))) records := by
  refine reads_list level ?_
  induction records with
  | nil => exact .nil
  | cons a records ih => exact .cons (h a _) ih

theorem reads_ofEvent (e : Event) (level : Nat) :
    Reads Reading.event 8 (write level (ofEvent e)) e := by
  apply reads_record (by decide)
  case h =>
    exact .required (reads_text e.id) rfl (by decide) <|
      .optional (reads_eventKind e.kind) rfl (by decide) <|
      .optional (reads_text e.name) rfl (by decide) <|
      .optional (reads_text e.description) rfl (by decide) <|
      .optional (reads_ofTexts e.requirements _) rfl (by decide) <|
      .optional (reads_records reads_ofEventOption e.options _) rfl (by decide) .nil
  case ha => rfl

theorem reads_lists (qualities : List Definition) (events : List Event) (level : Nat) :
    Reads Reading.lists 12
      (write level
        (.record [("qualities", .list (qualities.map ofDefinition)),
          ("events", .list (events.map ofEvent))]))
      (qualities, events) := by
  apply reads_record (by decide)
  case h =>
    exact .optional (reads_records reads_ofDefinition qualities _) rfl (by decide) <|
      .optional (reads_records reads_ofEvent events _) rfl (by decide) .nil
  case ha => rfl

theorem readFile?_toText (library : Library) :
    readFile? Reading.lists library.toText = some (library.qualities, library.events) :=
  readFile?_writeFile (reads_lists _ _ 0) (by decide)

/-! ## Repeated ids -/

section

variable {seen ids : List String} {id : String}

theorem firstDuplicate?_eq_none_iff (hseen : seen.Nodup) :
    firstDuplicate? seen ids = none ↔ (ids.reverse ++ seen).Nodup := by
  induction ids generalizing seen with
  | nil => simpa [firstDuplicate?] using hseen
  | cons first ids ih =>
    rw [firstDuplicate?, List.reverse_cons, List.append_assoc, List.singleton_append]
    by_cases hmem : first ∈ seen
    · have hnot : ¬(ids.reverse ++ first :: seen).Nodup := fun h =>
        (List.nodup_cons.mp (List.nodup_append.mp h).2.1).1 hmem
      simp [hmem, hnot]
    · rw [if_neg (by simpa using hmem), ih (List.nodup_cons.mpr ⟨hmem, hseen⟩)]

/-- It is the first id that stands behind itself. -/
theorem firstDuplicate?_eq_some_iff (hseen : seen.Nodup) :
    firstDuplicate? seen ids = some id ↔ ∃ front back, ids = front ++ id :: back ∧
      (front.reverse ++ seen).Nodup ∧ id ∈ front.reverse ++ seen := by
  induction ids generalizing seen with
  | nil => simp [firstDuplicate?]
  | cons first ids ih =>
    rw [firstDuplicate?]
    by_cases hmem : first ∈ seen
    · rw [if_pos (by simpa using hmem), Option.some_inj]
      constructor
      · rintro rfl
        exact ⟨[], ids, rfl, hseen, hmem⟩
      · rintro ⟨front, back, heq, hnodup, -⟩
        cases front with
        | nil => exact (List.cons.inj heq).1
        | cons other front =>
          obtain rfl : first = other := (List.cons.inj heq).1
          rw [List.reverse_cons, List.append_assoc] at hnodup
          exact absurd hmem (List.nodup_cons.mp (List.nodup_append.mp hnodup).2.1).1
    · rw [if_neg (by simpa using hmem), ih (List.nodup_cons.mpr ⟨hmem, hseen⟩)]
      constructor
      · rintro ⟨front, back, rfl, hnodup, hid⟩
        exact ⟨first :: front, back, rfl, by simpa using hnodup, by simpa using hid⟩
      · rintro ⟨front, back, heq, hnodup, hid⟩
        cases front with
        | nil =>
          obtain rfl : first = id := (List.cons.inj heq).1
          exact absurd (by simpa using hid) hmem
        | cons other front =>
          obtain ⟨rfl, rfl⟩ := List.cons.inj heq
          exact ⟨front, back, rfl, by simpa using hnodup, by simpa using hid⟩

theorem firstDuplicate?_nil_eq_none_iff : firstDuplicate? [] ids = none ↔ ids.Nodup := by
  rw [firstDuplicate?_eq_none_iff .nil, List.append_nil, List.nodup_reverse]

theorem firstDuplicate?_nil_eq_some_iff : firstDuplicate? [] ids = some id ↔
    ∃ front back, ids = front ++ id :: back ∧ front.Nodup ∧ id ∈ front := by
  simp only [firstDuplicate?_eq_some_iff .nil, List.append_nil, List.nodup_reverse,
    List.mem_reverse]

end

namespace Library

theorem same_ofLists (library : Library) : (ofLists library.qualities library.events).Same library :=
  same_of_lists_eq
    ((qualities_merge .empty library).trans (layOver_nil_left library.qualityTable.nodup_keys))
    ((events_merge .empty library).trans (layOver_nil_left library.eventTable.nodup_keys))

variable {text : String}

theorem ofText_eq_ok_iff {loaded : Library} : ofText text = .ok loaded ↔
    ∃ lists, readFile? Reading.lists text = some lists ∧
      firstDuplicate? [] (lists.1.map Definition.id) = none ∧
      loaded = ofLists lists.1 lists.2 := by
  unfold ofText
  split
  · next h => simp [h]
  · next qualities events h =>
    split
    · next id hid => simp [h, hid]
    · next hnone => simp [h, hnone, eq_comm]

theorem ofText_eq_error_iff {id : String} : ofText text = .error (.duplicateQuality id) ↔
    ∃ lists, readFile? Reading.lists text = some lists ∧
      firstDuplicate? [] (lists.1.map Definition.id) = some id := by
  unfold ofText
  split
  · next h => simp [h]
  · next qualities events h =>
    split
    · next id hid => simp [h, hid]
    · next hnone => simp [h, hnone]

/-- A library that is saved is loaded again as it was. A text is loaded if it is a file that names
no quality twice; if one is named twice, the first that is makes the error. -/
theorem saves_and_loads :
    (∀ library : Library, ∃ loaded, ofText library.toText = .ok loaded ∧
      loaded.qualities = library.qualities ∧ loaded.events = library.events ∧
      loaded.Same library) ∧
    ∀ text : String,
      ((∃ loaded, ofText text = .ok loaded) ↔
        ∃ lists, readFile? Reading.lists text = some lists ∧
          (lists.1.map Definition.id).Nodup) ∧
      ∀ id, ofText text = .error (.duplicateQuality id) ↔
        ∃ lists front back, readFile? Reading.lists text = some lists ∧
          lists.1.map Definition.id = front ++ id :: back ∧ front.Nodup ∧ id ∈ front := by
  refine ⟨fun library => ?_, fun text => ⟨?_, fun id => ?_⟩⟩
  · have hsame := library.same_ofLists
    have hnone : firstDuplicate? [] (library.qualities.map Definition.id) = none :=
      firstDuplicate?_nil_eq_none_iff.mpr library.qualityTable.nodup_keys
    exact ⟨ofLists library.qualities library.events,
      ofText_eq_ok_iff.mpr ⟨_, readFile?_toText library, hnone, rfl⟩,
      hsame.qualityTable.members, hsame.eventTable.members, hsame⟩
  · simp only [ofText_eq_ok_iff, firstDuplicate?_nil_eq_none_iff]
    constructor
    · rintro ⟨_, lists, hread, hnodup, -⟩
      exact ⟨lists, hread, hnodup⟩
    · rintro ⟨lists, hread, hnodup⟩
      exact ⟨_, lists, hread, hnodup, rfl⟩
  · simp only [ofText_eq_error_iff, firstDuplicate?_nil_eq_some_iff, ← exists_and_left]

end Library

end Content

end QualityScript
