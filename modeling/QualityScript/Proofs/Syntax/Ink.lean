import Mathlib.Algebra.GroupWithZero.Nat
import QualityScript.Proofs.Syntax.Splitting
import QualityScript.Block
import QualityScript.Template

/-!
# Ink

The ink of a text is the number of its characters that are not blank. Parts of a text have no more
ink than the whole, and whatever is written around them costs ink of its own: the braces of a block,
the `@` of an assignment, the separators between parts. Blanks cost nothing, so a text does not gain
by being trimmed or by having its parts joined again with blanks between them.
-/

namespace QualityScript

open Text

/-- The number of characters that are not blank. -/
def ink (text : List Char) : Nat := text.countP fun c => !isBlank c

@[simp] theorem ink_nil : ink [] = 0 := rfl

@[simp] theorem ink_append (a b : List Char) : ink (a ++ b) = ink a + ink b := List.countP_append

theorem ink_cons (c : Char) (text : List Char) :
    ink (c :: text) = ink text + if isBlank c then 0 else 1 := by
  cases hblank : isBlank c <;> simp [ink, hblank]

@[simp] theorem ink_cons_blank {c : Char} (h : isBlank c = true) (text : List Char) :
    ink (c :: text) = ink text := by
  simp [ink_cons, h]

@[simp] theorem ink_cons_mark {c : Char} (h : isBlank c = false) (text : List Char) :
    ink (c :: text) = ink text + 1 := by
  simp [ink_cons, h]

theorem ink_le_cons (c : Char) (text : List Char) : ink text ≤ ink (c :: text) := by
  rw [ink_cons]; omega

theorem ink_le_of_sublist {a b : List Char} (h : a.Sublist b) : ink a ≤ ink b := h.countP_le

theorem ink_dropWhile_isBlank (text : List Char) : ink (text.dropWhile isBlank) = ink text := by
  induction text with
  | nil => rfl
  | cons c rest ih =>
    cases h : isBlank c with
    | true => simpa [h] using ih
    | false => simp [h]

theorem ink_reverse (text : List Char) : ink text.reverse = ink text := by
  simp [ink, List.countP_reverse]

@[simp] theorem ink_trim (text : List Char) : ink (trim text) = ink text := by
  simp [trim, trimEnd, trimStart, ink_reverse, ink_dropWhile_isBlank]

@[simp] theorem ink_trimmed (text : String) : ink (trimmed text).toList = ink text.toList := by
  simp [trimmed]

@[simp] theorem ink_partText (part : List Char) : ink (partText part).toList = ink part := by
  simp [partText]

/-! ## Separators -/

/-- The ink of some texts, each with one mark. -/
def inkEach (parts : List (List Char)) : Nat := (parts.map fun part => ink part + 1).sum

@[simp] theorem inkEach_nil : inkEach [] = 0 := rfl

@[simp] theorem inkEach_cons (part : List Char) (parts : List (List Char)) :
    inkEach (part :: parts) = ink part + 1 + inkEach parts := by
  simp [inkEach]

theorem ink_intercalate {separator : List Char} (h : ink separator = 1) {parts : List (List Char)}
    (hne : parts ≠ []) : ink (separator.intercalate parts) + 1 = inkEach parts := by
  induction parts with
  | nil => exact absurd rfl hne
  | cons part rest ih =>
    cases rest with
    | nil => simp
    | cons next rest =>
      rw [List.intercalate_cons_of_ne_nil (by simp)]
      have := ih (by simp)
      simp only [ink_append, inkEach_cons, h] at this ⊢
      omega

theorem splitTopLevel_ne_nil (separator : Char) (text : List Char) :
    splitTopLevel separator text ≠ [] := cutAt_ne_nil _ _ _

theorem inkEach_splitTopLevel {separator : Char} (h : isBlank separator = false)
    (text : List Char) : inkEach (splitTopLevel separator text) = ink text + 1 := by
  have hmark : ink [separator] = 1 := by simp [h]
  rw [← ink_intercalate hmark (splitTopLevel_ne_nil separator text), intercalate_splitTopLevel_eq]

theorem ink_le_inkEach {part : List Char} {parts : List (List Char)} (h : part ∈ parts) :
    ink part + 1 ≤ inkEach parts := by
  induction parts with
  | nil => cases h
  | cons p rest ih =>
    rw [inkEach_cons]
    rcases List.mem_cons.mp h with rfl | h
    · omega
    · have := ih h; omega

theorem ink_le_of_mem_splitTopLevel {separator : Char} (hmark : isBlank separator = false)
    {text part : List Char} (h : part ∈ splitTopLevel separator text) : ink part ≤ ink text := by
  have := ink_le_inkEach h
  rw [inkEach_splitTopLevel hmark] at this
  omega

theorem ink_breakTopLevel? {separator : Char} (hmark : isBlank separator = false)
    {text before after : List Char} (h : breakTopLevel? separator text = some (before, after)) :
    ink text = ink before + ink after + 1 := by
  rw [eq_of_breakTopLevel? h]
  simp only [ink_append, ink_cons_mark hmark]
  omega

theorem inkEach_le_of_sublist {a b : List (List Char)} (h : a.Sublist b) :
    inkEach a ≤ inkEach b := by
  induction h with
  | slnil => exact Nat.le_refl _
  | cons part _ ih => rw [inkEach_cons]; omega
  | cons_cons part _ ih => rw [inkEach_cons, inkEach_cons]; omega

theorem inkEach_map_trim (parts : List (List Char)) : inkEach (parts.map trim) = inkEach parts := by
  induction parts with
  | nil => rfl
  | cons part rest ih => simp [ih]

/-! ## Blocks -/

theorem ink_splitAssignment? {text name expression : List Char}
    (h : splitAssignment? text = some (name, expression)) : ink expression < ink text := by
  unfold splitAssignment? at h
  split at h
  · next rest =>
    split at h
    · cases h
    · next name' after _ hspan =>
      split at h
      · cases h
      · next tail heq =>
        cases h
        have hafter : ink after ≤ ink rest := by
          have hsub : (spanIdent rest).2.Sublist rest := List.dropWhile_sublist _
          rw [hspan] at hsub
          exact ink_le_of_sublist hsub
        have htrim : ink (trimStart after) = ink after := ink_dropWhile_isBlank after
        have hmark : ink (('=' : Char) :: expression) = ink expression + 1 := ink_cons_mark (by decide) _
        have hat : ink ('@' :: rest) = ink rest + 1 := ink_cons_mark (by decide) _
        rw [heq] at htrim
        omega
      · cases h
  · cases h

theorem ink_branch (part : List Char) :
    (∀ c ∈ (Branch.ofPart part).condition, ink c.toList ≤ ink part) ∧
      ink (Branch.ofPart part).result.toList ≤ ink part := by
  unfold Branch.ofPart
  split
  · next condition result h =>
    have := ink_breakTopLevel? (by decide) h
    simp only [Option.mem_def, Option.some.injEq, ink_partText, forall_eq']
    omega
  · simp

/-- What a block consists of has no more ink than the block, and the right side of an assignment
less. -/
theorem ink_classify (input : String) :
    match Block.classify input with
    | .empty => True
    | .assign _ expression => ink expression.toList < ink input.toList
    | .conditional branches => ∀ b ∈ branches,
        (∀ c ∈ b.condition, ink c.toList ≤ ink input.toList) ∧
          ink b.result.toList ≤ ink input.toList
    | .choice options => ∀ option ∈ options, ink option.toList ≤ ink input.toList
    | .leaf source => ink source.toList ≤ ink input.toList := by
  have htrim := ink_trim input.toList
  unfold Block.classify
  dsimp only
  generalize trim input.toList = text at htrim
  rw [← htrim]
  by_cases hempty : text.isEmpty
  · simp [hempty]
  · simp only [hempty]
    unfold Block.ofChars
    cases hassign : splitAssignment? text with
    | some r =>
      obtain ⟨name, expression⟩ := r
      simpa using ink_splitAssignment? hassign
    | none =>
      have hpart {part : List Char} (h : part ∈ splitTopLevel '|' text) : ink part ≤ ink text :=
        ink_le_of_mem_splitTopLevel (by decide) h
      by_cases hcond : (splitTopLevel '|' text).any fun part => !(topLevelOffsets ':' part).isEmpty
      · simp only [hcond, if_true]
        intro b hb
        obtain ⟨part, hmem, rfl⟩ := List.mem_map.mp hb
        have hbranch := ink_branch part
        exact ⟨fun c hc => Nat.le_trans (hbranch.1 c hc) (hpart hmem),
          Nat.le_trans hbranch.2 (hpart hmem)⟩
      · by_cases hmany : (splitTopLevel '|' text).length > 1
        · simp only [hcond, hmany, if_true]
          intro option ho
          obtain ⟨part, hmem, rfl⟩ := List.mem_map.mp ho
          simpa using hpart hmem
        · simp [hcond, hmany]

/-! ## Templates -/

theorem not_mem_literalPart (content : String) (collected : List Char) :
    .block content ∉ literalPart collected := by
  unfold literalPart
  split <;> simp

/-- A block of a template has less ink than the text: its braces are not part of it. -/
theorem ink_block_scanFrom (quotesKept : Bool) (offset : Nat) (before : Option Char)
    (collected text : List Char) (content : String) :
    .block content ∈ (scanFrom quotesKept offset before collected text).1 →
      ink content.toList < ink text := by
  fun_induction scanFrom quotesKept offset before collected text with
  | case1 | case3 => exact fun h => absurd h (not_mem_literalPart content _)
  | case2 offset before collected rest n hlength _ segments errors hscan ih =>
    intro h
    rw [hscan] at ih
    have hbrace : ink ('{' :: rest) = ink rest + 1 := ink_cons_mark (by decide) rest
    rcases List.mem_append.mp h with h | h
    · exact absurd h (not_mem_literalPart content _)
    · rcases List.mem_cons.mp h with h | h
      · cases h
        have := ink_le_of_sublist (List.take_sublist n rest)
        rw [String.toList_ofList]
        omega
      · have := ink_le_of_sublist (List.drop_sublist (n + 1) rest)
        have := ih h
        omega
  | case4 offset before collected c rest _ n _ _ ih =>
    intro h
    exact Nat.lt_of_lt_of_le (ih h)
      (ink_le_of_sublist ((List.drop_sublist (n + 1) rest).trans (List.sublist_cons_self c rest)))
  | case5 offset before collected c rest _ _ segments errors hscan ih =>
    intro h
    rw [hscan] at ih
    exact Nat.lt_of_lt_of_le (ih h) (ink_le_cons c rest)

theorem ink_block {quotesKept : Bool} {input content : String}
    (h : .block content ∈ (scan quotesKept input).1) : ink content.toList < ink input.toList :=
  ink_block_scanFrom quotesKept 0 none [] input.toList content h

end QualityScript
