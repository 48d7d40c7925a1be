import QualityScript.Proofs.Syntax.Separators

/-!
# Pieces of a text

A text with a separator at the top level is cut at the first one, and what stands behind it is split on its
own: no bracket and no quote is open there, and a bar behind a single bar is no half of a doubled one. No
piece has a separator at the top level, neither in the whole text nor taken alone. A quote that is closed
is closed in its piece, and the last bar of a piece stands next to no other bar.
-/

namespace QualityScript

open Text

section

variable {separator : Char} {before after : Option Char}

theorem isDoubledBar_of_ne_bar (h : separator ≠ '|') (before after : Option Char) :
    isDoubledBar separator before after = false := by
  simp [isDoubledBar, h]

theorem ne_bar_of_before (h : isDoubledBar separator (some separator) after = false) :
    separator ≠ '|' := by
  rintro rfl
  simp [isDoubledBar] at h

theorem ne_bar_of_after (h : isDoubledBar separator before (some separator) = false) :
    separator ≠ '|' := by
  rintro rfl
  simp [isDoubledBar] at h

end

/-! ## The first separator -/

/-- The first separator that a scan finds in a text stands between `first` and `rest`. In `first` alone it
finds none, and it goes on with `rest` where no bracket is open. -/
structure Breaks (separator : Char) (depth : Nat) (before : Option Char) (offset : Nat)
    (first rest : List Char) : Prop where
  scan : separatorsFrom separator depth none before offset (first ++ separator :: rest) =
    (offset + first.length) ::
      separatorsFrom separator 0 none (some separator) (offset + first.length + 1) rest
  alone : separatorsFrom separator depth none before offset first = []
  single : isDoubledBar separator (first.getLast?.or before) rest.head? = false

namespace Breaks

variable {separator c : Char} {depth offset : Nat} {before : Option Char}
  {content first rest : List Char}

theorem here (hsep : IsSeparator separator) (hquote : isQuote separator = false)
    (hsingle : isDoubledBar separator before rest.head? = false) :
    Breaks separator 0 before offset [] rest where
  scan := by
    have hbare : IsBare before separator rest := fun hstart => by simp [startsQuote, hquote] at hstart
    rw [List.nil_append, separatorsFrom_bare hsep hquote hbare, if_pos ⟨rfl, rfl, hsingle⟩]
    simp [depthAfter, hsep.opening, hsep.closing]
  alone := rfl
  single := hsingle

/-- A quoted text in front of the first piece belongs to it. -/
theorem quoted (hstart : startsQuote before c) (hcontent : c ∉ content)
    (h : Breaks separator depth (some c) (offset + (content.length + 2)) first rest) :
    Breaks separator depth before offset (c :: (content ++ c :: first)) rest where
  scan := by
    have hlength : offset + (c :: (content ++ c :: first)).length =
        offset + (content.length + 2) + first.length := by
      simp only [List.length_cons, List.length_append]
      omega
    rw [List.cons_append, List.append_assoc, List.cons_append, separatorsFrom_quoted hstart hcontent,
      h.scan, hlength]
  alone := by rw [separatorsFrom_quoted hstart hcontent, h.alone]
  single := by
    rw [getLast?_cons_or, List.getLast?_append, Option.or_assoc, getLast?_cons_or]
    exact h.single

/-- A character in front of the first piece belongs to it, unless it is the first separator itself. -/
theorem bare (hsep : IsSeparator separator) (hquote : isQuote separator = false)
    (hbare : IsBare before c (first ++ separator :: rest))
    (hnone : ¬ (c = separator ∧ depth = 0 ∧
      isDoubledBar separator before (first ++ separator :: rest).head? = false))
    (h : Breaks separator (depthAfter depth [c]) (some c) (offset + 1) first rest) :
    Breaks separator depth before offset (c :: first) rest where
  scan := by
    rw [List.cons_append, separatorsFrom_bare hsep hquote hbare, if_neg hnone, h.scan,
      List.length_cons, Nat.add_right_comm offset 1, Nat.add_assoc offset]
  alone := by
    have hfirst : IsBare before c first := fun hstart hmem =>
      hbare hstart (List.mem_append_left _ hmem)
    rw [separatorsFrom_bare hsep hquote hfirst, if_neg, h.alone]
    rintro ⟨rfl, hdepth, hsingle⟩
    refine hnone ⟨rfl, hdepth, ?_⟩
    cases first with
    | nil =>
      -- Alone the piece ends here. A bar would double the separator that follows in the text.
      exact isDoubledBar_of_ne_bar (ne_bar_of_before h.single) ..
    | cons d first => exact hsingle
  single := by
    rw [getLast?_cons_or]
    exact h.single

end Breaks

section

variable {separator : Char} {depth offset n : Nat} {before : Option Char}
  {first rest piece text : List Char}

theorem eq_nil_or_breaks (hsep : IsSeparator separator) (hquote : isQuote separator = false)
    (depth offset : Nat) (before : Option Char) (text : List Char) :
    separatorsFrom separator depth none before offset text = [] ∨
      ∃ first rest, text = first ++ separator :: rest ∧
        Breaks separator depth before offset first rest := by
  induction before, text using unquoted_induction generalizing depth offset with
  | nil => exact .inl rfl
  | quoted before c content more hstart hcontent ih =>
    rcases ih depth (offset + (content.length + 2)) with hnil | ⟨first, rest, rfl, hbreaks⟩
    · exact .inl (by rw [separatorsFrom_quoted hstart hcontent, hnil])
    · exact .inr ⟨_, rest, by simp, hbreaks.quoted hstart hcontent⟩
  | bare before c text hbare ih =>
    by_cases hhere : c = separator ∧ depth = 0 ∧ isDoubledBar separator before text.head? = false
    · obtain ⟨rfl, rfl, hsingle⟩ := hhere
      exact .inr ⟨[], text, rfl, .here hsep hquote hsingle⟩
    · rcases ih (depthAfter depth [c]) (offset + 1) with hnil | ⟨first, rest, rfl, hbreaks⟩
      · exact .inl (by rw [separatorsFrom_bare hsep hquote hbare, if_neg hhere, hnil])
      · exact .inr ⟨c :: first, rest, rfl, hbreaks.bare hsep hquote hbare hhere⟩

/-! ## Scanning on behind a separator -/

/-- A scan that begins further on finds the same separators further on. -/
theorem separatorsFrom_add (separator : Char) (depth : Nat) (quote before : Option Char)
    (offset k : Nat) (text : List Char) :
    separatorsFrom separator depth quote before (offset + k) text =
      (separatorsFrom separator depth quote before offset text).map (· + k) := by
  induction text generalizing depth quote before offset with
  | nil => rfl
  | cons c rest ih =>
    have hrest (depth : Nat) (quote : Option Char) :
        separatorsFrom separator depth quote (some c) (offset + k + 1) rest =
          (separatorsFrom separator depth quote (some c) (offset + 1) rest).map (· + k) := by
      rw [Nat.add_right_comm, ih]
    cases quote with
    | some q => rw [separatorsFrom, separatorsFrom, hrest]
    | none => simp only [separatorsFrom, hrest, apply_ite (List.map (· + k)), List.map_cons]

theorem cutAt_add (start k : Nat) (offsets : List Nat) (text : List Char) :
    cutAt (start + k) (offsets.map (· + k)) text = cutAt start offsets text := by
  induction offsets generalizing start text with
  | nil => rfl
  | cons offset offsets ih =>
    rw [List.map_cons, cutAt, cutAt, Nat.add_sub_add_right, Nat.add_right_comm, ih]

/-- Behind a single separator a text is scanned as if it began there. -/
theorem separatorsFrom_after (hopens : opensQuote (some separator))
    (hsingle : isDoubledBar separator before rest.head? = false) :
    separatorsFrom separator depth none (some separator) offset rest =
      separatorsFrom separator depth none none offset rest := by
  cases rest with
  | nil => rfl
  | cons c rest =>
    have hstart : startsQuote (some separator) c = startsQuote none c := by
      rw [startsQuote, hopens, startsQuote]
      rfl
    by_cases hc : c = separator
    · have hbar : separator ≠ '|' := ne_bar_of_after (hc ▸ hsingle)
      simp only [separatorsFrom, hstart, isDoubledBar_of_ne_bar hbar]
    · simp only [separatorsFrom, hstart, hc, decide_false, Bool.false_and]

/-! ## Splitting -/

/-- How a text falls into pieces: it has no separator at the top level, or is cut at one behind a piece that
has none. With the text stand the places of its cuts and its pieces. -/
inductive Splits (separator : Char) : List Char → List Nat → List (List Char) → Prop where
  | whole {piece : List Char} : topLevelOffsets separator piece = [] →
      Splits separator piece [] [piece]
  | cut {first rest : List Char} {offsets : List Nat} {pieces : List (List Char)} :
      topLevelOffsets separator first = [] → Splits separator rest offsets pieces →
      Splits separator (first ++ separator :: rest)
        (first.length :: offsets.map (· + (first.length + 1))) (first :: pieces)

theorem topLevelOffsets_of_breaks (hopens : opensQuote (some separator))
    (h : Breaks separator 0 none 0 first rest) :
    topLevelOffsets separator (first ++ separator :: rest) =
      first.length :: (topLevelOffsets separator rest).map (· + (first.length + 1)) := by
  rw [topLevelOffsets, h.scan, separatorsFrom_after hopens h.single, Nat.add_assoc,
    separatorsFrom_add, Nat.zero_add, topLevelOffsets]

theorem splitTopLevel_of_breaks (hopens : opensQuote (some separator))
    (h : Breaks separator 0 none 0 first rest) :
    splitTopLevel separator (first ++ separator :: rest) = first :: splitTopLevel separator rest := by
  have hcut := cutAt_add 0 (first.length + 1) (topLevelOffsets separator rest) rest
  rw [Nat.zero_add] at hcut
  rw [splitTopLevel, topLevelOffsets_of_breaks hopens h, cutAt, Nat.sub_zero, List.take_left,
    List.drop_length_add_append, List.drop_succ_cons, List.drop_zero, hcut, splitTopLevel]

/-- Splitting cuts at the first separator and goes on with the rest. -/
theorem splits (hsep : IsSeparator separator) (hquote : isQuote separator = false)
    (hopens : opensQuote (some separator)) (text : List Char) :
    Splits separator text (topLevelOffsets separator text) (splitTopLevel separator text) := by
  induction hlength : text.length using Nat.strongRecOn generalizing text with
  | ind length ih =>
    rcases eq_nil_or_breaks hsep hquote 0 0 none text with hnil | ⟨first, rest, rfl, hbreaks⟩
    · have hoffsets : topLevelOffsets separator text = [] := hnil
      rw [splitTopLevel, hoffsets]
      exact .whole hoffsets
    · -- What stands behind the first separator is shorter than the text.
      rw [topLevelOffsets_of_breaks hopens hbreaks, splitTopLevel_of_breaks hopens hbreaks]
      exact .cut hbreaks.alone (ih _ (by simp at hlength; omega) rest rfl)

namespace Splits

variable {offsets : List Nat} {pieces : List (List Char)}

theorem ne_nil (h : Splits separator text offsets pieces) : pieces ≠ [] := by
  cases h <;> exact List.cons_ne_nil _ _

theorem topLevelOffsets_eq_nil (h : Splits separator text offsets pieces) (hpiece : piece ∈ pieces) :
    topLevelOffsets separator piece = [] := by
  induction h with
  | whole hnone =>
    cases List.mem_singleton.mp hpiece
    exact hnone
  | cut hfirst _ ih =>
    rcases List.mem_cons.mp hpiece with rfl | hpiece
    · exact hfirst
    · exact ih hpiece

/-- The cuts are the places between the pieces. -/
theorem mem_iff (h : Splits separator text offsets pieces) :
    n ∈ offsets ↔ ∃ left right, left ≠ [] ∧ right ≠ [] ∧ pieces = left ++ right ∧
      n = ([separator].intercalate left).length := by
  induction h generalizing n with
  | whole _ =>
    constructor
    · intro hn
      cases hn
    · rintro ⟨left, right, hleft, hright, hpieces, -⟩
      rcases List.append_eq_singleton_iff.mp hpieces.symm with ⟨rfl, -⟩ | ⟨-, rfl⟩
      · exact absurd rfl hleft
      · exact absurd rfl hright
  | @cut first rest offsets pieces hfirst hsplits ih =>
    have hlength {left : List (List Char)} (hleft : left ≠ []) :
        ([separator].intercalate (first :: left)).length =
          ([separator].intercalate left).length + (first.length + 1) := by
      rw [List.intercalate_cons_of_ne_nil hleft]
      simp only [List.length_append, List.length_singleton]
      omega
    rw [List.mem_cons, List.mem_map]
    constructor
    · rintro (rfl | ⟨m, hm, rfl⟩)
      · exact ⟨[first], pieces, List.cons_ne_nil _ _, hsplits.ne_nil, rfl, by simp⟩
      · obtain ⟨left, right, hleft, hright, rfl, rfl⟩ := ih.mp hm
        exact ⟨first :: left, right, List.cons_ne_nil _ _, hright, rfl, (hlength hleft).symm⟩
    · rintro ⟨left, right, hleft, hright, hpieces, rfl⟩
      obtain ⟨rfl, rfl⟩ | ⟨left, rfl, rfl⟩ := List.cons_eq_append_iff.mp hpieces
      · exact absurd rfl hleft
      · by_cases hone : left = []
        · exact .inl (by simp [hone])
        · exact .inr ⟨_, ih.mpr ⟨left, right, hone, hright, rfl, rfl⟩, (hlength hone).symm⟩

end Splits

/-- The pieces of a text, joined by the separator, give back the text. The cuts between them are the offsets
that the scan returns, and these are all the places where the separator stands at the top level, outside
every quoted text. No piece taken alone has such a place, and so it is not split again. -/
theorem splitTopLevel_exact (hseparator : separator ∈ ['|', ':', ',', ';']) (text : List Char) :
    [separator].intercalate (splitTopLevel separator text) = text ∧
    (∀ n, n ∈ topLevelOffsets separator text ↔ IsTopLevel separator 0 none text n) ∧
    (∀ n, n ∈ topLevelOffsets separator text ↔ ∃ left right, left ≠ [] ∧ right ≠ [] ∧
      splitTopLevel separator text = left ++ right ∧
        n = ([separator].intercalate left).length) ∧
    ∀ piece ∈ splitTopLevel separator text,
      topLevelOffsets separator piece = [] ∧ splitTopLevel separator piece = [piece] := by
  have hmark : IsSeparator separator ∧ isQuote separator = false ∧ opensQuote (some separator) := by
    simp only [List.mem_cons, List.not_mem_nil, or_false] at hseparator
    rcases hseparator with rfl | rfl | rfl | rfl
    all_goals exact ⟨⟨rfl, rfl⟩, by decide, by decide⟩
  obtain ⟨hsep, hquote, hopens⟩ := hmark
  have hsplits := splits hsep hquote hopens text
  refine ⟨intercalate_splitTopLevel_eq separator text, fun n => mem_topLevelOffsets_iff hsep hquote,
    fun n => hsplits.mem_iff, fun piece hpiece => ?_⟩
  have hnone := hsplits.topLevelOffsets_eq_nil hpiece
  exact ⟨hnone, by rw [splitTopLevel, hnone, cutAt]⟩

end

/-- A quoted bar, a doubled one and one in parentheses do not split, but one behind a quote that is never
closed does. -/
theorem splitTopLevel_exact_of_open_quote :
    let text := "don't|'a|b'||(c|d)|\"e|f".toList
    let pieces := ["don't".toList, "'a|b'||(c|d)".toList, "\"e".toList, "f".toList]
    '|' ∈ ['|', ':', ',', ';'] ∧ splitTopLevel '|' text = pieces ∧
      ['|'].intercalate pieces = text ∧ (∀ n, n ∈ [5, 18, 21] ↔ IsTopLevel '|' 0 none text n) ∧
      ∀ piece ∈ pieces, topLevelOffsets '|' piece = [] ∧ splitTopLevel '|' piece = [piece] := by
  intro text pieces
  have hmem : '|' ∈ ['|', ':', ',', ';'] := .head _
  have hpieces : splitTopLevel '|' text = pieces := by decide
  have hoffsets : topLevelOffsets '|' text = [5, 18, 21] := by decide
  obtain ⟨hjoin, htop, -, halone⟩ := splitTopLevel_exact hmem text
  exact ⟨hmem, hpieces, hpieces ▸ hjoin, hoffsets ▸ htop, hpieces ▸ halone⟩

end QualityScript
