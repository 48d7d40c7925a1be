import QualityScript.Proofs.Syntax.Closing
import Mathlib.Data.List.ReduceOption

/-!
# Separators at the top level

A quoted text hides what it holds from the scan for separators: brackets in it do not count, and a
separator in it separates nothing. With the quoted texts taken out, a separator is found exactly where it
stands at depth zero and is no half of a doubled bar. A text is therefore scanned in two kinds of steps,
past one quoted text or past one character outside of all.
-/

namespace QualityScript

open Text

/-- The depth after a text, where a stray closing bracket is ignored at depth zero. -/
def depthAfter (depth : Nat) : List Char → Nat
  | [] => depth
  | c :: rest =>
    depthAfter (if isOpening c then depth + 1 else if isClosing c then depth - 1 else depth) rest

@[simp] theorem depthAfter_nil (depth : Nat) : depthAfter depth [] = depth := rfl

/-- Brackets and quotes separate nothing. -/
structure IsSeparator (separator : Char) : Prop where
  opening : isOpening separator = false
  closing : isClosing separator = false

section

variable {separator c : Char} {depth offset n : Nat} {before : Option Char}
  {content more rest text : List Char}

/-! ## Quoted texts -/

/-- A text without its quoted texts: every other character at its place, and nothing where a quoted text
or one of its quotes stands. A quote that is never closed encloses nothing. -/
def unquoted (before : Option Char) : List Char → List (Option Char)
  | [] => []
  | c :: rest =>
    match if startsQuote before c then quoteLength? c rest else none with
    | some n => List.replicate (n + 2) none ++ unquoted (some c) (rest.drop (n + 1))
    | none => some c :: unquoted (some c) rest
termination_by text => text.length
decreasing_by
  all_goals simp only [List.length_cons, List.length_drop]; omega

/-- A place in a quoted text, its two quotes included. -/
def IsQuoted (before : Option Char) (text : List Char) (n : Nat) : Prop :=
  (unquoted before text)[n]? = some none

/-- No quoted text begins at a character: it is no quote, or none that is closed. -/
def IsBare (before : Option Char) (c : Char) (rest : List Char) : Prop :=
  startsQuote before c → c ∉ rest

theorem unquoted_bare (h : IsBare before c rest) :
    unquoted before (c :: rest) = some c :: unquoted (some c) rest := by
  have hnone : (if startsQuote before c then quoteLength? c rest else none) = none := by
    split
    · next hquote => exact quoteLength?_eq_none_iff.mpr (h hquote)
    · rfl
  rw [unquoted, hnone]

theorem unquoted_quoted (hstart : startsQuote before c) (hcontent : c ∉ content) :
    unquoted before (c :: (content ++ c :: more)) =
      List.replicate (content.length + 2) none ++ unquoted (some c) more := by
  rw [unquoted, if_pos hstart, quoteLength?_eq hcontent]
  simp only [List.drop_length_add_append, List.drop_succ_cons, List.drop_zero]

/-- A text begins with a quoted text, or with a character where none begins, or is empty. -/
theorem unquoted_induction {motive : Option Char → List Char → Prop}
    (nil : ∀ before, motive before [])
    (quoted : ∀ before c content more, startsQuote before c → c ∉ content → motive (some c) more →
      motive before (c :: (content ++ c :: more)))
    (bare : ∀ before c rest, IsBare before c rest → motive (some c) rest → motive before (c :: rest))
    (before : Option Char) (text : List Char) : motive before text := by
  fun_induction unquoted before text with
  | case1 before => exact nil before
  | case2 before c rest n h ih =>
    simp only [dite_eq_ite] at h
    split at h
    · next hstart =>
      obtain ⟨content, more, rfl, rfl, hcontent⟩ := eq_of_quoteLength? h
      rw [List.drop_length_add_append] at ih
      exact quoted before c content more hstart hcontent ih
    · cases h
  | case3 before c rest h ih =>
    refine bare before c rest (fun hstart => ?_) ih
    simp only [hstart] at h
    exact quoteLength?_eq_none_iff.mp h

theorem unquoted_of_forall (h : ∀ c ∈ text, isQuote c = false) :
    unquoted before text = text.map some := by
  induction text generalizing before with
  | nil => rw [unquoted, List.map_nil]
  | cons c rest ih =>
    have hbare : IsBare before c rest := fun hstart => by simp [startsQuote, h c (.head _)] at hstart
    rw [unquoted_bare hbare, ih fun c hc => h c (.tail _ hc), List.map_cons]

/-! ## The top level -/

/-- The separator stands at the place `n` of a text, and at the top level: in no quoted text, where no
bracket is open, and as no half of a doubled bar. `depth` brackets are open where the text begins, and
`before` stands in front of it. -/
structure IsTopLevel (separator : Char) (depth : Nat) (before : Option Char) (text : List Char)
    (n : Nat) : Prop where
  here : text[n]? = some separator
  outside : ¬ IsQuoted before text n
  depth : depthAfter depth ((unquoted before text).take n).reduceOption = 0
  single : isDoubledBar separator ((text.take n).getLast?.or before) (text.drop (n + 1)).head? = false

theorem not_isTopLevel_nil : ¬ IsTopLevel separator depth before [] n := by
  rintro ⟨hhere, -, -, -⟩
  simp at hhere

theorem isTopLevel_zero (hbare : IsBare before c rest) :
    IsTopLevel separator depth before (c :: rest) 0 ↔
      c = separator ∧ depth = 0 ∧ isDoubledBar separator before rest.head? = false := by
  constructor
  · rintro ⟨hhere, -, hdepth, hsingle⟩
    exact ⟨by simpa using hhere, hdepth, hsingle⟩
  · rintro ⟨rfl, hdepth, hsingle⟩
    exact ⟨rfl, by simp [IsQuoted, unquoted_bare hbare], hdepth, hsingle⟩

theorem isTopLevel_succ (hbare : IsBare before c rest) :
    IsTopLevel separator depth before (c :: rest) (n + 1) ↔
      IsTopLevel separator (depthAfter depth [c]) (some c) rest n := by
  have houtside : IsQuoted before (c :: rest) (n + 1) ↔ IsQuoted (some c) rest n := by
    rw [IsQuoted, unquoted_bare hbare, List.getElem?_cons_succ, IsQuoted]
  have hdepth : depthAfter depth ((unquoted before (c :: rest)).take (n + 1)).reduceOption =
      depthAfter (depthAfter depth [c]) ((unquoted (some c) rest).take n).reduceOption := by
    rw [unquoted_bare hbare, List.take_succ_cons, List.reduceOption_cons_of_some]
    rfl
  have hlast : ((c :: rest).take (n + 1)).getLast?.or before = (rest.take n).getLast?.or (some c) := by
    rw [List.take_succ_cons, getLast?_cons_or]
  constructor
  · rintro ⟨hhere, hout, hlevel, hsingle⟩
    exact ⟨hhere, houtside.not.mp hout, hdepth ▸ hlevel, hlast ▸ hsingle⟩
  · rintro ⟨hhere, hout, hlevel, hsingle⟩
    exact ⟨hhere, houtside.not.mpr hout, hdepth ▸ hlevel, hlast ▸ hsingle⟩

/-- Nothing in a quoted text is at the top level. -/
theorem IsTopLevel.length_le (hstart : startsQuote before c) (hcontent : c ∉ content)
    (h : IsTopLevel separator depth before (c :: (content ++ c :: more)) n) :
    content.length + 2 ≤ n := by
  by_contra hlt
  apply h.outside
  rw [IsQuoted, unquoted_quoted hstart hcontent, List.getElem?_append_left (by simpa using hlt)]
  exact List.getElem?_replicate_of_lt (by omega)

/-- Behind a quoted text all is as if the text began there. -/
theorem isTopLevel_add (hstart : startsQuote before c) (hcontent : c ∉ content) :
    IsTopLevel separator depth before (c :: (content ++ c :: more)) (content.length + 2 + n) ↔
      IsTopLevel separator depth (some c) more n := by
  have htext : c :: (content ++ c :: more) = (c :: content ++ [c]) ++ more := by simp
  have hlength : (c :: content ++ [c]).length = content.length + 2 := by simp
  have hhere : (c :: (content ++ c :: more))[content.length + 2 + n]? = more[n]? := by
    rw [htext, ← hlength, List.getElem?_append_right (Nat.le_add_right ..), Nat.add_sub_cancel_left]
  have houtside : IsQuoted before (c :: (content ++ c :: more)) (content.length + 2 + n) ↔
      IsQuoted (some c) more n := by
    rw [IsQuoted, unquoted_quoted hstart hcontent, List.getElem?_append_right (by simp),
      List.length_replicate, Nat.add_sub_cancel_left, IsQuoted]
  have hdepth : ((unquoted before (c :: (content ++ c :: more))).take
      (content.length + 2 + n)).reduceOption = ((unquoted (some c) more).take n).reduceOption := by
    rw [unquoted_quoted hstart hcontent, List.take_append, List.reduceOption_append]
    simp
  have hlast : ((c :: (content ++ c :: more)).take (content.length + 2 + n)).getLast?.or before =
      (more.take n).getLast?.or (some c) := by
    rw [htext, ← hlength, List.take_length_add_append, List.getLast?_append, List.getLast?_concat]
    cases (more.take n).getLast? <;> rfl
  have hnext : (c :: (content ++ c :: more)).drop (content.length + 2 + n + 1) =
      more.drop (n + 1) := by
    rw [htext, ← hlength, Nat.add_assoc, List.drop_length_add_append]
  constructor
  · rintro ⟨hat, hout, hlevel, hsingle⟩
    rw [hlast, hnext] at hsingle
    exact ⟨hhere ▸ hat, houtside.not.mp hout, hdepth ▸ hlevel, hsingle⟩
  · rintro ⟨hat, hout, hlevel, hsingle⟩
    rw [← hlast, ← hnext] at hsingle
    exact ⟨hhere ▸ hat, houtside.not.mpr hout, hdepth ▸ hlevel, hsingle⟩

/-! ## The scan -/

/-- A quoted text is passed as a whole. -/
theorem separatorsFrom_quoted (hstart : startsQuote before c) (hcontent : c ∉ content) :
    separatorsFrom separator depth none before offset (c :: (content ++ c :: more)) =
      separatorsFrom separator depth none (some c) (offset + (content.length + 2)) more := by
  rw [separatorsFrom_quote hstart (by simp), separatorsFrom_content hcontent, Nat.add_assoc,
    Nat.add_comm 1]

/-- A character outside quoted texts is a separator at the top level or changes the depth at most. -/
theorem separatorsFrom_bare (hsep : IsSeparator separator) (hquote : isQuote separator = false)
    (hbare : IsBare before c rest) :
    separatorsFrom separator depth none before offset (c :: rest) =
      if c = separator ∧ depth = 0 ∧ isDoubledBar separator before rest.head? = false then
        offset :: separatorsFrom separator (depthAfter depth [c]) none (some c) (offset + 1) rest
      else separatorsFrom separator (depthAfter depth [c]) none (some c) (offset + 1) rest := by
  by_cases hopen : isOpening c
  · have hne : c ≠ separator := (ne_of_isOpening hsep.opening hopen).symm
    simp [separatorsFrom_opening hopen, hne, depthAfter, hopen]
  · by_cases hclose : isClosing c
    · have hne : c ≠ separator := (ne_of_isClosing hsep.closing hclose).symm
      simp [separatorsFrom_closing hclose, hne, depthAfter, hopen, hclose]
    · by_cases hstart : startsQuote before c
      · have hne : c ≠ separator := by
          rintro rfl
          simp [startsQuote, hquote] at hstart
        simp [separatorsFrom, hopen, hclose, hstart, hne, depthAfter, hbare hstart]
      · simp [separatorsFrom, hopen, hclose, hstart, depthAfter, and_assoc]

/-- The offsets that a scan finds are the places where the separator stands at the top level. -/
theorem mem_separatorsFrom_iff (hsep : IsSeparator separator) (hquote : isQuote separator = false) :
    n ∈ separatorsFrom separator depth none before offset text ↔
      ∃ k, n = offset + k ∧ IsTopLevel separator depth before text k := by
  induction before, text using unquoted_induction generalizing depth offset with
  | nil => simp [separatorsFrom, not_isTopLevel_nil]
  | quoted before c content more hstart hcontent ih =>
    rw [separatorsFrom_quoted hstart hcontent, ih]
    constructor
    · rintro ⟨k, rfl, h⟩
      exact ⟨_, Nat.add_assoc .., (isTopLevel_add hstart hcontent).mpr h⟩
    · rintro ⟨k, rfl, h⟩
      obtain ⟨k, rfl⟩ := Nat.exists_eq_add_of_le (h.length_le hstart hcontent)
      exact ⟨k, (Nat.add_assoc ..).symm, (isTopLevel_add hstart hcontent).mp h⟩
  | bare before c rest hbare ih =>
    have hrest : n ∈ separatorsFrom separator (depthAfter depth [c]) none (some c) (offset + 1) rest ↔
        ∃ k, n = offset + (k + 1) ∧ IsTopLevel separator depth before (c :: rest) (k + 1) := by
      rw [ih]
      simp only [isTopLevel_succ hbare, Nat.add_assoc, Nat.add_comm 1]
    rw [← Nat.or_exists_add_one, isTopLevel_zero hbare, ← hrest,
      separatorsFrom_bare hsep hquote hbare]
    split
    · next hhere => simp [hhere]
    · next hhere => simp [hhere]

theorem mem_topLevelOffsets_iff (hsep : IsSeparator separator) (hquote : isQuote separator = false) :
    n ∈ topLevelOffsets separator text ↔ IsTopLevel separator 0 none text n := by
  rw [topLevelOffsets, mem_separatorsFrom_iff hsep hquote]
  simp only [Nat.zero_add, exists_eq_left']

end

end QualityScript
