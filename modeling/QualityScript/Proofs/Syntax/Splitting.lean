import QualityScript.Block

/-!
# Splitting keeps the text

The offsets of a separator are places where it stands, in order. So the pieces of a text, joined by
the separator, give back the text, and a text broken at its first separator is the two parts with the
separator between them.
-/

namespace QualityScript

open Text

theorem cutAt_ne_nil (start : Nat) (offsets : List Nat) (text : List Char) :
    cutAt start offsets text ≠ [] := by
  cases offsets <;> simp [cutAt]

/-- The offsets of a separator after the first character, wherever the first one stands. -/
theorem separatorsFrom_cons (separator : Char) (depth : Nat) (quote before : Option Char)
    (offset : Nat) (c : Char) (rest : List Char) :
    ∃ depth' quote', separatorsFrom separator depth quote before offset (c :: rest) =
        separatorsFrom separator depth' quote' (some c) (offset + 1) rest ∨
      c = separator ∧ separatorsFrom separator depth quote before offset (c :: rest) =
        offset :: separatorsFrom separator depth' quote' (some c) (offset + 1) rest := by
  cases quote with
  | some q => exact ⟨_, _, .inl (by rw [separatorsFrom])⟩
  | none =>
    rw [separatorsFrom]
    split
    · exact ⟨_, _, .inl rfl⟩
    · split
      · exact ⟨_, _, .inl rfl⟩
      · split
        · exact ⟨_, _, .inl rfl⟩
        · split
          · next hsep =>
            simp only [Bool.and_eq_true, decide_eq_true_eq] at hsep
            exact ⟨_, _, .inr ⟨hsep.1.1, rfl⟩⟩
          · exact ⟨_, _, .inl rfl⟩

/-- The pieces from a place on that is not later than the first offset. -/
theorem intercalate_cutAt (separator : Char) (depth : Nat) (quote before : Option Char)
    (start : Nat) (passed text : List Char) :
    [separator].intercalate (cutAt start
      (separatorsFrom separator depth quote before (start + passed.length) text) (passed ++ text)) =
      passed ++ text := by
  induction text generalizing depth quote before start passed with
  | nil => simp [separatorsFrom, cutAt]
  | cons c rest ih =>
    obtain ⟨depth', quote', heq | ⟨rfl, heq⟩⟩ :=
      separatorsFrom_cons separator depth quote before (start + passed.length) c rest
    · have := ih depth' quote' (some c) start (passed ++ [c])
      rw [heq]
      simpa [Nat.add_assoc] using this
    · have htail := ih depth' quote' (some c) (start + passed.length + 1) []
      simp only [List.length_nil, Nat.add_zero, List.nil_append] at htail
      have hdrop : (passed ++ c :: rest).drop (passed.length + 1) = rest := by
        simp [List.drop_append]
      rw [heq, cutAt, Nat.add_sub_cancel_left, List.take_left, hdrop,
        List.intercalate_cons_of_ne_nil (cutAt_ne_nil _ _ _), htail]
      simp

/-- Joining the pieces of a text with the separator gives back the text. -/
theorem intercalate_splitTopLevel_eq (separator : Char) (text : List Char) :
    [separator].intercalate (splitTopLevel separator text) = text := by
  simpa [splitTopLevel, topLevelOffsets] using intercalate_cutAt separator 0 none none 0 [] text

/-- Where a piece of a text from `start` on stands: at its ends there is a separator, or the text
ends. -/
theorem exists_append_of_mem_cutAt {separator : Char} {depth : Nat} {quote before : Option Char}
    {start : Nat} {passed text piece : List Char}
    (h : piece ∈ cutAt start
      (separatorsFrom separator depth quote before (start + passed.length) text) (passed ++ text)) :
    ∃ left right, passed ++ text = left ++ piece ++ right ∧
      (left = [] ∨ ∃ init, left = init ++ [separator] ∧ start + init.length ∈
        separatorsFrom separator depth quote before (start + passed.length) text) ∧
      (right = [] ∨ ∃ tail, right = separator :: tail ∧ start + (left ++ piece).length ∈
        separatorsFrom separator depth quote before (start + passed.length) text) := by
  induction text generalizing depth quote before start passed with
  | nil =>
    simp only [separatorsFrom, cutAt, List.mem_singleton] at h
    exact ⟨[], [], by simp [h], .inl rfl, .inl rfl⟩
  | cons c rest ih =>
    obtain ⟨depth', quote', heq | ⟨rfl, heq⟩⟩ :=
      separatorsFrom_cons separator depth quote before (start + passed.length) c rest
    · rw [heq] at h ⊢
      have hlength : start + passed.length + 1 = start + (passed ++ [c]).length := by
        rw [List.length_append]
        rfl
      have htext : passed ++ c :: rest = (passed ++ [c]) ++ rest := by simp
      rw [hlength, htext] at h ⊢
      exact ih h
    · have hdrop : (passed ++ c :: rest).drop (passed.length + 1) = rest := by
        simp [List.drop_append]
      rw [heq, cutAt, Nat.add_sub_cancel_left, List.take_left, hdrop] at h
      rw [heq]
      rcases List.mem_cons.mp h with rfl | h
      · exact ⟨[], c :: rest, rfl, .inl rfl, .inr ⟨rest, rfl, .head _⟩⟩
      · have hrest : piece ∈ cutAt (start + passed.length + 1)
            (separatorsFrom c depth' quote' (some c)
              (start + passed.length + 1 + ([] : List Char).length) rest) ([] ++ rest) := h
        obtain ⟨left, right, htext, hleft, hright⟩ := ih hrest
        simp only [List.nil_append, List.length_nil, Nat.add_zero] at htext hleft hright
        have hplace (n : Nat) : start + (passed.length + (n + 1)) = start + passed.length + 1 + n := by
          omega
        refine ⟨passed ++ c :: left, right, by simp [htext], .inr ?_, ?_⟩
        · rcases hleft with rfl | ⟨init, rfl, hinit⟩
          · exact ⟨passed, rfl, .head _⟩
          · refine ⟨passed ++ c :: init, by simp, .tail _ ?_⟩
            rwa [List.length_append, List.length_cons, hplace]
        · rcases hright with hright | ⟨tail, hright, hpiece⟩
          · exact .inl hright
          · refine .inr ⟨tail, hright, .tail _ ?_⟩
            rwa [List.append_assoc, List.length_append, List.cons_append, List.length_cons, hplace]

/-- Where a piece of a text stands. -/
theorem exists_append_of_mem_splitTopLevel {separator : Char} {text piece : List Char}
    (h : piece ∈ splitTopLevel separator text) :
    ∃ left right, text = left ++ piece ++ right ∧
      (left = [] ∨ ∃ init, left = init ++ [separator] ∧
        init.length ∈ topLevelOffsets separator text) ∧
      (right = [] ∨ ∃ tail, right = separator :: tail ∧
        (left ++ piece).length ∈ topLevelOffsets separator text) := by
  have hcut : piece ∈ cutAt 0
      (separatorsFrom separator 0 none none (0 + ([] : List Char).length) text) ([] ++ text) := h
  simpa [topLevelOffsets] using exists_append_of_mem_cutAt hcut

theorem getElem?_of_mem_separatorsFrom {separator : Char} {depth : Nat} {quote before : Option Char}
    {offset : Nat} {text : List Char} {n : Nat}
    (h : n ∈ separatorsFrom separator depth quote before offset text) :
    text[n - offset]? = some separator := by
  induction text generalizing depth quote before offset with
  | nil => simp [separatorsFrom] at h
  | cons c rest ih =>
    have step {d : Nat} {q : Option Char}
        (h : n ∈ separatorsFrom separator d q (some c) (offset + 1) rest) :
        (c :: rest)[n - offset]? = some separator := by
      have hle := (separatorsFrom_bounds h).1
      rw [show n - offset = n - (offset + 1) + 1 by omega]
      simpa using ih h
    obtain ⟨depth', quote', heq | ⟨rfl, heq⟩⟩ :=
      separatorsFrom_cons separator depth quote before offset c rest
    · rw [heq] at h
      exact step h
    · rw [heq] at h
      rcases List.mem_cons.mp h with rfl | h
      · simp
      · exact step h

theorem eq_of_breakTopLevel? {separator : Char} {text before after : List Char}
    (h : breakTopLevel? separator text = some (before, after)) :
    text = before ++ separator :: after := by
  obtain ⟨n, hn, heq⟩ := Option.map_eq_some_iff.mp h
  cases heq
  have hget := getElem?_of_mem_separatorsFrom (List.mem_of_mem_head? hn)
  obtain ⟨hlt, hat⟩ := List.getElem?_eq_some_iff.mp hget
  rw [← hat]
  simp only [Nat.sub_zero]
  rw [← List.drop_eq_getElem_cons, List.take_append_drop]

end QualityScript
