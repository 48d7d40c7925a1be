import QualityScript.Text.Character
import Mathlib.Data.List.TakeWhile

/-!
# What trimming leaves

Trimming takes blanks away at both ends and nothing else, so trimming again takes nothing away.
-/

namespace QualityScript.Text

theorem trim_eq_self {text : List Char} (hfirst : ∀ c ∈ text.head?, isBlank c = false)
    (hlast : ∀ c ∈ text.getLast?, isBlank c = false) : trim text = text := by
  have hstart : trimStart text = text := by
    cases text with
    | nil => rfl
    | cons c rest => exact List.dropWhile_cons_of_neg (by simp [hfirst c rfl])
  have hend : trimEnd text = text := by
    rw [trimEnd, List.reverse_eq_iff]
    cases hreverse : text.reverse with
    | nil => rfl
    | cons c rest =>
      have hc : isBlank c = false := hlast c (by simp [List.getLast?_eq_head?_reverse, hreverse])
      exact List.dropWhile_cons_of_neg (by simp [hc])
  rw [trim, hstart, hend]

theorem trim_eq_self_of_forall {text : List Char} (h : ∀ c ∈ text, isBlank c = false) :
    trim text = text :=
  trim_eq_self (fun c hc => h c (List.mem_of_head? hc)) fun c hc => h c (List.mem_of_getLast? hc)

theorem trimEnd_append (text : List Char) :
    trimEnd text ++ (text.reverse.takeWhile isBlank).reverse = text := by
  rw [trimEnd, ← List.reverse_append, List.takeWhile_append_dropWhile, List.reverse_reverse]

theorem exists_append_trim (text : List Char) :
    ∃ left right, text = left ++ trim text ++ right ∧ (∀ c ∈ left, isBlank c) ∧
      ∀ c ∈ right, isBlank c := by
  refine ⟨text.takeWhile isBlank, ((trimStart text).reverse.takeWhile isBlank).reverse, ?_,
    fun c hc => List.mem_takeWhile_imp hc,
    fun c hc => List.mem_takeWhile_imp (List.mem_reverse.mp hc)⟩
  rw [trim, List.append_assoc, trimEnd_append]
  exact List.takeWhile_append_dropWhile.symm

theorem mem_of_mem_trim {text : List Char} {c : Char} (h : c ∈ trim text) : c ∈ text := by
  obtain ⟨left, right, htext, -, -⟩ := exists_append_trim text
  rw [htext]
  simp [h]

theorem mem_trim_of_mem {text : List Char} {c : Char} (h : c ∈ text) (hc : isBlank c = false) :
    c ∈ trim text := by
  obtain ⟨left, right, htext, hleft, hright⟩ := exists_append_trim text
  rw [htext] at h
  rcases List.mem_append.mp h with h | h
  · rcases List.mem_append.mp h with h | h
    · rw [hleft c h] at hc
      cases hc
    · exact h
  · rw [hright c h] at hc
    cases hc

theorem not_isBlank_of_head?_dropWhile {text : List Char} {c : Char}
    (h : c ∈ (text.dropWhile isBlank).head?) : isBlank c = false := by
  have := List.head?_dropWhile_not isBlank text
  rw [Option.mem_def.mp h] at this
  exact this

theorem trim_trim (text : List Char) : trim (trim text) = trim text := by
  apply trim_eq_self
  · intro c hc
    have hhead : c ∈ (trimStart text).head? := by
      rw [← trimEnd_append (trimStart text), List.head?_append, ← trim, Option.mem_def.mp hc]
      rfl
    exact not_isBlank_of_head?_dropWhile hhead
  · intro c hc
    rw [trim, trimEnd, List.getLast?_reverse] at hc
    exact not_isBlank_of_head?_dropWhile hc

theorem trimmed_trimmed (text : String) : trimmed (trimmed text) = trimmed text := by
  rw [trimmed, trimmed, String.toList_ofList, trim_trim]

end QualityScript.Text
