import QualityScript.Proofs.Syntax.Separators
import QualityScript.Block
import QualityScript.Proofs.Syntax.Trimming
import Mathlib.Data.List.Infix

/-!
# What separators cut

A block is found by counting braces, a separator by counting brackets of all kinds in one depth that
never goes below zero. The two views differ where a nested block closes a parenthesis or a square
bracket that it did not open: the depth then goes down inside the block, and a separator there can
be one at the top level. Exactly the separators that are shielded by an open bracket of any kind are
passed over. Where all separators in nested blocks are, a block is cut between its nested blocks only.
-/

namespace QualityScript

open Text

theorem depthAfter_append (depth : Nat) (a b : List Char) :
    depthAfter depth (a ++ b) = depthAfter (depthAfter depth a) b := by
  induction a generalizing depth with
  | nil => rfl
  | cons c rest ih => exact ih _

theorem depthAfter_of_forall {text : List Char}
    (h : ∀ c ∈ text, isOpening c = false ∧ isClosing c = false) (depth : Nat) :
    depthAfter depth text = depth := by
  induction text generalizing depth with
  | nil => rfl
  | cons c rest ih =>
    obtain ⟨hopen, hclose⟩ := h c (.head _)
    rw [depthAfter, hopen, hclose]
    exact ih (fun c hc => h c (.tail _ hc)) depth

/-- The depth is zero after a text if from no place on more brackets open than close. -/
theorem depthAfter_eq_zero_iff_of_depth (depth : Nat) (text : List Char) :
    depthAfter depth text = 0 ↔
      depth + text.countP isOpening ≤ text.countP isClosing ∧
        ∀ s, s <:+ text → s.countP isOpening ≤ s.countP isClosing := by
  induction text generalizing depth with
  | nil => simp
  | cons c rest ih =>
    have hsuffix : (∀ s, s <:+ c :: rest → s.countP isOpening ≤ s.countP isClosing) ↔
        (c :: rest).countP isOpening ≤ (c :: rest).countP isClosing ∧
          ∀ s, s <:+ rest → s.countP isOpening ≤ s.countP isClosing := by
      simp only [List.suffix_cons_iff, or_imp, forall_and, forall_eq]
    have hself : (∀ s, s <:+ rest → s.countP isOpening ≤ s.countP isClosing) →
        rest.countP isOpening ≤ rest.countP isClosing := fun h => h rest (List.suffix_refl rest)
    rw [depthAfter, ih, hsuffix, List.countP_cons, List.countP_cons]
    by_cases hopen : isOpening c
    · have hclose : isClosing c = false := by
        obtain rfl | rfl | rfl := eq_of_isOpening hopen <;> rfl
      simp only [hopen, hclose, if_true, Bool.false_eq_true, if_false, Nat.add_zero]
      constructor
      · rintro ⟨hle, hs⟩
        exact ⟨by omega, by omega, hs⟩
      · rintro ⟨hle, -, hs⟩
        exact ⟨by omega, hs⟩
    · by_cases hclose : isClosing c
      · simp only [hopen, hclose, if_true, Bool.false_eq_true, if_false, Nat.add_zero]
        constructor
        · rintro ⟨hle, hs⟩
          have := hself hs
          exact ⟨by omega, by omega, hs⟩
        · rintro ⟨hle, -, hs⟩
          have := hself hs
          exact ⟨by omega, hs⟩
      · simp only [hopen, hclose, Bool.false_eq_true, if_false, Nat.add_zero]
        constructor
        · rintro ⟨hle, hs⟩
          exact ⟨hle, hself hs, hs⟩
        · rintro ⟨hle, -, hs⟩
          exact ⟨hle, hs⟩

theorem depthAfter_eq_zero_iff (text : List Char) :
    depthAfter 0 text = 0 ↔ ∀ s, s <:+ text → s.countP isOpening ≤ s.countP isClosing := by
  rw [depthAfter_eq_zero_iff_of_depth]
  constructor
  · rintro ⟨-, hs⟩
    exact hs
  · intro hs
    exact ⟨by simpa using hs text (List.suffix_refl text), hs⟩

/-! ## Separators -/

/-- A separator between two texts stands at the top level. -/
structure Separates (separator : Char) (before after : List Char) : Prop where
  depth : depthAfter 0 before = 0
  single : isDoubledBar separator before.getLast? after.head? = false

theorem isTopLevel_iff_separates {separator : Char} {n : Nat} {text : List Char}
    (hquotes : ∀ c ∈ text, isQuote c = false) :
    IsTopLevel separator 0 none text n ↔ ∃ left right, text = left ++ separator :: right ∧
      n = left.length ∧ Separates separator left right := by
  have hbefore (n : Nat) : ((unquoted none text).take n).reduceOption = text.take n := by
    rw [unquoted_of_forall hquotes, ← List.map_take]
    simp [List.reduceOption, List.filterMap_map]
  constructor
  · rintro ⟨hhere, -, hdepth, hsingle⟩
    obtain ⟨hlt, hat⟩ := List.getElem?_eq_some_iff.mp hhere
    rw [hbefore] at hdepth
    refine ⟨text.take n, text.drop (n + 1), ?_, by simp; omega, hdepth, by simpa using hsingle⟩
    rw [← hat, ← List.drop_eq_getElem_cons, List.take_append_drop]
  · rintro ⟨left, right, rfl, rfl, hdepth, hsingle⟩
    refine ⟨by simp, ?_, by rwa [hbefore, List.take_left], ?_⟩
    · simp [IsQuoted, unquoted_of_forall hquotes]
    · simpa using hsingle

/-- In a text without quotes the offsets are the places where a separator stands at the top level. -/
theorem mem_topLevelOffsets_iff_separates {separator : Char} (hsep : IsSeparator separator) {n : Nat}
    {text : List Char} (hquotes : ∀ c ∈ text, isQuote c = false) :
    n ∈ topLevelOffsets separator text ↔ ∃ left right, text = left ++ separator :: right ∧
      n = left.length ∧ Separates separator left right := by
  by_cases hmem : separator ∈ text
  · rw [mem_topLevelOffsets_iff hsep (hquotes separator hmem), isTopLevel_iff_separates hquotes]
  · constructor
    · intro h
      exact absurd (List.mem_of_getElem? (getElem?_of_mem_separatorsFrom h)) hmem
    · rintro ⟨left, right, rfl, -, -⟩
      simp at hmem

/-! ## Braces -/

/-- The braces of a text pair: none closes before one opens, and all are closed. -/
structure BracesPair (text : List Char) : Prop where
  before : ∀ init, init <+: text → init.count '}' ≤ init.count '{'
  total : text.count '}' = text.count '{'

instance (text : List Char) : Decidable (BracesPair text) :=
  decidable_of_iff
    ((∀ init ∈ text.inits, init.count '}' ≤ init.count '{') ∧ text.count '}' = text.count '{')
    ⟨fun h => ⟨fun init hinit => h.1 init ((List.mem_inits _ _).mpr hinit), h.2⟩,
      fun h => ⟨fun init hinit => h.before init ((List.mem_inits _ _).mp hinit), h.total⟩⟩

/-- As many braces close as open: the end of the text is outside all nested blocks. -/
def EndsOutside (text : List Char) : Prop := text.count '}' = text.count '{'

instance (text : List Char) : Decidable (EndsOutside text) :=
  inferInstanceAs (Decidable (_ = _))

theorem endsOutside_of_forall {text : List Char}
    (h : ∀ c ∈ text, isOpening c = false ∧ isClosing c = false) : EndsOutside text := by
  have hclose : text.count '}' = 0 :=
    List.count_eq_zero.mpr fun hmem => Bool.noConfusion (h _ hmem).2
  have hopen : text.count '{' = 0 :=
    List.count_eq_zero.mpr fun hmem => Bool.noConfusion (h _ hmem).1
  rw [EndsOutside, hclose, hopen]

theorem EndsOutside.append_iff {a b : List Char} (h : EndsOutside a) :
    EndsOutside (a ++ b) ↔ EndsOutside b := by
  unfold EndsOutside at h ⊢
  rw [List.count_append, List.count_append, h]
  exact Nat.add_left_cancel_iff

theorem EndsOutside.append_iff_left {a b : List Char} (h : EndsOutside b) :
    EndsOutside (a ++ b) ↔ EndsOutside a := by
  unfold EndsOutside at h ⊢
  rw [List.count_append, List.count_append, h]
  exact Nat.add_right_cancel_iff

/-- Between two places outside all nested blocks the braces pair. -/
theorem BracesPair.between {text left middle right : List Char} (h : BracesPair text)
    (htext : text = left ++ middle ++ right) (hleft : EndsOutside left)
    (hmiddle : EndsOutside middle) : BracesPair middle := by
  refine ⟨fun init hinit => ?_, hmiddle⟩
  have hwhole : left ++ init <+: text := by
    rw [htext, List.append_assoc]
    exact List.prefix_append_right_inj left |>.mpr (hinit.trans (List.prefix_append _ _))
  have hcount := h.before _ hwhole
  rw [List.count_append, List.count_append, hleft] at hcount
  omega

/-- The separators of a text at the top level are outside its nested blocks. -/
def CutsOutside (separator : Char) (text : List Char) : Prop :=
  ∀ left right, text = left ++ separator :: right → Separates separator left right →
    EndsOutside left

/-- Wherever the separator stands in a nested block, from some place before it on more brackets open
than close, brackets of all kinds counted together. -/
def Shielded (separator : Char) (text : List Char) : Prop :=
  ∀ left right, text = left ++ separator :: right →
    isDoubledBar separator left.getLast? right.head? = false → left.count '}' < left.count '{' →
    ∃ inner, inner <:+ left ∧ inner.countP isClosing < inner.countP isOpening

theorem cutsOutside_iff_shielded {separator : Char} {text : List Char} (h : BracesPair text) :
    CutsOutside separator text ↔ Shielded separator text := by
  constructor
  · intro houtside left right htext hsingle hinside
    by_contra hnone
    simp only [not_exists, not_and, Nat.not_lt] at hnone
    have hdepth : depthAfter 0 left = 0 := (depthAfter_eq_zero_iff left).mpr hnone
    have := houtside left right htext ⟨hdepth, hsingle⟩
    unfold EndsOutside at this
    omega
  · intro hshielded left right htext hseparates
    have hbefore := h.before left (htext ▸ List.prefix_append _ _)
    by_contra hinside
    unfold EndsOutside at hinside
    obtain ⟨inner, hinner, hlt⟩ := hshielded left right htext hseparates.single (by omega)
    have := (depthAfter_eq_zero_iff left).mp hseparates.depth inner hinner
    omega

theorem forall_mem_topLevelOffsets_iff {separator : Char} (hsep : IsSeparator separator)
    {text : List Char} (hquotes : ∀ c ∈ text, isQuote c = false) :
    (∀ n ∈ topLevelOffsets separator text, EndsOutside (text.take n)) ↔
      CutsOutside separator text := by
  constructor
  · intro h left right htext hseparates
    have hmem : left.length ∈ topLevelOffsets separator text :=
      (mem_topLevelOffsets_iff_separates hsep hquotes).mpr ⟨left, right, htext, rfl, hseparates⟩
    have := h _ hmem
    rwa [htext, List.take_left] at this
  · intro h n hn
    obtain ⟨left, right, htext, rfl, hseparates⟩ :=
      (mem_topLevelOffsets_iff_separates hsep hquotes).mp hn
    have := h left right htext hseparates
    rwa [htext, List.take_left]

/-- What stands between two places at depth zero is cut as it is in the whole text. -/
theorem CutsOutside.between {separator : Char} {text left middle right : List Char}
    (h : CutsOutside separator text) (htext : text = left ++ middle ++ right)
    (hdepth : depthAfter 0 left = 0) (hleft : EndsOutside left)
    (hsingle : ∀ a b, isDoubledBar separator a.getLast? b.head? = false →
      isDoubledBar separator (left ++ a).getLast? (b ++ right).head? = false) :
    CutsOutside separator middle := by
  intro before after hmiddle hseparates
  have hwhole : text = (left ++ before) ++ separator :: (after ++ right) := by
    rw [htext, hmiddle]
    simp
  refine hleft.append_iff.mp (h _ _ hwhole ⟨?_, hsingle _ _ hseparates.single⟩)
  rw [depthAfter_append, hdepth]
  exact hseparates.depth

/-! ## The parts of a block -/

def Block.texts : Block → List String
  | .empty => []
  | .assign _ expression => [expression]
  | .conditional branches => branches.flatMap fun b => b.condition.toList ++ [b.result]
  | .choice options => options
  | .leaf source => [source]

theorem isBracket_of_isBlank {c : Char} (h : isBlank c) :
    isOpening c = false ∧ isClosing c = false := by
  constructor
  · by_contra hc
    obtain rfl | rfl | rfl := eq_of_isOpening (by simpa using hc) <;> cases h
  · by_contra hc
    obtain rfl | rfl | rfl := eq_of_isClosing (by simpa using hc) <;> cases h

theorem isBracket_of_isIdentChar {c : Char} (h : isIdentChar c) :
    isOpening c = false ∧ isClosing c = false := by
  constructor
  · by_contra hc
    obtain rfl | rfl | rfl := eq_of_isOpening (by simpa using hc) <;> cases h
  · by_contra hc
    obtain rfl | rfl | rfl := eq_of_isClosing (by simpa using hc) <;> cases h

theorem BracesPair.trim {text : List Char} (h : BracesPair text) : BracesPair (trim text) := by
  obtain ⟨left, right, htext, hleft, hright⟩ := exists_append_trim text
  have houtleft := endsOutside_of_forall fun c hc => isBracket_of_isBlank (hleft c hc)
  have houtright := endsOutside_of_forall fun c hc => isBracket_of_isBlank (hright c hc)
  have htotal : EndsOutside text := h.total
  rw [htext, houtright.append_iff_left, houtleft.append_iff] at htotal
  exact h.between htext houtleft htotal

theorem BracesPair.partText {part : List Char} (h : BracesPair part) :
    BracesPair (partText part).toList := by
  rw [QualityScript.partText, String.toList_ofList]
  exact h.trim

/-- No bar stands next to blanks. -/
theorem CutsOutside.trim {separator : Char} {text : List Char} (h : CutsOutside separator text) :
    CutsOutside separator (trim text) := by
  obtain ⟨left, right, htext, hleft, hright⟩ := exists_append_trim text
  have hbracket := fun c hc => isBracket_of_isBlank (hleft c hc)
  refine h.between htext (depthAfter_of_forall hbracket 0) (endsOutside_of_forall hbracket) ?_
  intro a b hsingle
  have hlast : left.getLast? ≠ some '|' := fun hlast =>
    absurd (hleft _ (List.mem_of_getLast? hlast)) (by decide)
  have hhead : right.head? ≠ some '|' := fun hhead =>
    absurd (hright _ (List.mem_of_mem_head? hhead)) (by decide)
  simp only [isDoubledBar, Bool.and_eq_false_iff, Bool.or_eq_false_iff, beq_eq_false_iff_ne,
    List.getLast?_append, List.head?_append] at hsingle ⊢
  rcases hsingle with hne | ⟨ha, hb⟩
  · exact .inl hne
  · refine .inr ⟨?_, ?_⟩
    · cases hhere : b.head? with
      | none => simpa using hhead
      | some d => simpa [hhere] using ha
    · cases hhere : a.getLast? with
      | none => simpa using hlast
      | some d => simpa [hhere] using hb

theorem isSeparator_bar : IsSeparator '|' := ⟨rfl, rfl⟩

theorem isSeparator_colon : IsSeparator ':' := ⟨rfl, rfl⟩

section Cutting

variable {separator : Char} {text left middle right piece : List Char}

theorem place_of_mem_topLevelOffsets (hsep : IsSeparator separator)
    (hquotes : ∀ c ∈ text, isQuote c = false) (hcuts : CutsOutside separator text)
    (htext : text = left ++ right) (h : left.length ∈ topLevelOffsets separator text) :
    depthAfter 0 left = 0 ∧ EndsOutside left := by
  obtain ⟨left', right', htext', hlength, hseparates⟩ :=
    (mem_topLevelOffsets_iff_separates hsep hquotes).mp h
  obtain rfl : left = left' := List.append_inj_left (htext.symm.trans htext') hlength
  exact ⟨hseparates.depth, hcuts _ _ htext' hseparates⟩

/-- A piece begins at depth zero, and begins and ends outside the nested blocks. -/
theorem exists_place_of_mem_splitTopLevel (hsep : IsSeparator separator)
    (hquotes : ∀ c ∈ text, isQuote c = false) (h : BracesPair text)
    (hcuts : CutsOutside separator text) (hpiece : piece ∈ splitTopLevel separator text) :
    ∃ left right, text = left ++ piece ++ right ∧ depthAfter 0 left = 0 ∧ EndsOutside left ∧
      EndsOutside piece := by
  obtain ⟨left, right, htext, hleft, hright⟩ := exists_append_of_mem_splitTopLevel hpiece
  have hmark : ∀ c ∈ [separator], isOpening c = false ∧ isClosing c = false := by
    intro c hc
    cases List.mem_singleton.mp hc
    exact ⟨hsep.opening, hsep.closing⟩
  have hbegin : depthAfter 0 left = 0 ∧ EndsOutside left := by
    rcases hleft with rfl | ⟨init, rfl, hinit⟩
    · exact ⟨rfl, rfl⟩
    · have hinit' : text = init ++ ([separator] ++ piece ++ right) := by simp [htext]
      obtain ⟨hdepth, houtside⟩ := place_of_mem_topLevelOffsets hsep hquotes hcuts hinit' hinit
      refine ⟨?_, houtside.append_iff.mpr (endsOutside_of_forall hmark)⟩
      rw [depthAfter_append, hdepth, depthAfter_of_forall hmark]
  have hend : EndsOutside (left ++ piece) := by
    rcases hright with rfl | ⟨tail, rfl, htail⟩
    · rw [List.append_nil] at htext
      exact htext ▸ h.total
    · exact (place_of_mem_topLevelOffsets hsep hquotes hcuts htext htail).2
  exact ⟨left, right, htext, hbegin.1, hbegin.2, hbegin.2.append_iff.mp hend⟩

/-- The condition and the result of a link are outside the nested blocks of each other. -/
theorem bracesPair_ofPart (hquotes : ∀ c ∈ piece, isQuote c = false) (h : BracesPair piece)
    (hcuts : CutsOutside ':' piece) {text : String}
    (htext : text ∈ (Branch.ofPart piece).condition.toList ++ [(Branch.ofPart piece).result]) :
    BracesPair text.toList := by
  cases hbreak : breakTopLevel? ':' piece with
  | none =>
    simp only [Branch.ofPart, hbreak, Option.toList_none, List.nil_append,
      List.mem_singleton] at htext
    subst htext
    exact h.partText
  | some parts =>
    obtain ⟨condition, result⟩ := parts
    have hpiece : piece = condition ++ ':' :: result := eq_of_breakTopLevel? hbreak
    obtain ⟨n, hn, hparts⟩ := Option.map_eq_some_iff.mp hbreak
    have hcondition : EndsOutside condition := by
      have := (forall_mem_topLevelOffsets_iff isSeparator_colon hquotes).mpr hcuts n
        (List.mem_of_mem_head? hn)
      cases hparts
      exact this
    have hmark : EndsOutside (condition ++ [':']) := hcondition.append_iff.mpr rfl
    have hpiece' : piece = (condition ++ [':']) ++ result ++ [] := by simp [hpiece]
    have hresult : EndsOutside result := by
      have htotal : EndsOutside piece := h.total
      rw [hpiece', List.append_nil] at htotal
      exact hmark.append_iff.mp htotal
    simp only [Branch.ofPart, hbreak, Option.toList_some, List.cons_append, List.nil_append,
      List.mem_cons, List.not_mem_nil, or_false] at htext
    rcases htext with rfl | rfl
    · have hwhole : piece = [] ++ condition ++ ':' :: result := hpiece
      exact (h.between hwhole rfl hcondition).partText
    · exact (h.between hpiece' hmark hresult).partText

/-- Before the expression of an assignment there is no bracket. -/
theorem exists_append_of_splitAssignment? {name expression : List Char}
    (h : splitAssignment? text = some (name, expression)) :
    ∃ left, text = left ++ expression ∧
      ∀ c ∈ left, isOpening c = false ∧ isClosing c = false := by
  unfold splitAssignment? at h
  split at h
  · next rest =>
    split at h
    · cases h
    · next name' after _ hspan =>
      split at h
      · cases h
      · next tail heq =>
        cases h
        have hname : rest = name ++ after := by
          rw [← spanIdent_append rest, hspan]
        have hafter : after = after.takeWhile isBlank ++ '=' :: expression := by
          rw [← heq]
          exact List.takeWhile_append_dropWhile.symm
        refine ⟨'@' :: name ++ after.takeWhile isBlank ++ ['='], ?_, fun c hc => ?_⟩
        · rw [hname]
          nth_rewrite 1 [hafter]
          simp
        · simp only [List.cons_append, List.mem_cons, List.mem_append, List.not_mem_nil,
            or_false] at hc
          rcases hc with rfl | (hc | hc) | rfl
          · exact ⟨rfl, rfl⟩
          · have hname' : name = rest.takeWhile isIdentChar := congrArg Prod.fst hspan.symm
            exact isBracket_of_isIdentChar (List.mem_takeWhile_imp (hname' ▸ hc))
          · exact isBracket_of_isBlank (List.mem_takeWhile_imp hc)
          · exact ⟨rfl, rfl⟩
      · cases h
  · cases h

theorem bracesPair_ofChars (hquotes : ∀ c ∈ text, isQuote c = false) (h : BracesPair text)
    (hbar : CutsOutside '|' text) (hcolon : CutsOutside ':' text) {part : String}
    (hpart : part ∈ (Block.ofChars text).texts) : BracesPair part.toList := by
  have hplace {piece : List Char} (hpiece : piece ∈ splitTopLevel '|' text) :
      BracesPair piece ∧ CutsOutside ':' piece ∧ ∀ c ∈ piece, isQuote c = false := by
    obtain ⟨left, right, htext, hdepth, hleft, hmiddle⟩ :=
      exists_place_of_mem_splitTopLevel isSeparator_bar hquotes h hbar hpiece
    refine ⟨h.between htext hleft hmiddle, hcolon.between htext hdepth hleft fun _ _ _ => rfl, ?_⟩
    exact fun c hc => hquotes c (by simp [htext, hc])
  unfold Block.ofChars at hpart
  cases hassign : splitAssignment? text with
  | some assignment =>
    obtain ⟨name, expression⟩ := assignment
    simp only [hassign, Block.texts, List.mem_singleton] at hpart
    subst hpart
    obtain ⟨left, htext, hleft⟩ := exists_append_of_splitAssignment? hassign
    have hbegin : EndsOutside left := endsOutside_of_forall hleft
    have htotal : EndsOutside text := h.total
    rw [htext, hbegin.append_iff] at htotal
    have hwhole : text = left ++ expression ++ [] := by rw [List.append_nil, htext]
    exact (h.between hwhole hbegin htotal).partText
  | none =>
    simp only [hassign] at hpart
    by_cases hcond : (splitTopLevel '|' text).any fun part => !(topLevelOffsets ':' part).isEmpty
    · simp only [hcond, if_true, Block.texts] at hpart
      obtain ⟨branch, hbranch, hmem⟩ := List.mem_flatMap.mp hpart
      obtain ⟨piece, hpiece, rfl⟩ := List.mem_map.mp hbranch
      obtain ⟨hpair, hcuts, hquotes'⟩ := hplace hpiece
      exact bracesPair_ofPart hquotes' hpair hcuts hmem
    · by_cases hmany : (splitTopLevel '|' text).length > 1
      · simp only [hcond, hmany, if_true, Block.texts] at hpart
        obtain ⟨piece, hpiece, rfl⟩ := List.mem_map.mp hpart
        exact (hplace hpiece).1.partText
      · simp only [hcond, hmany, Block.texts] at hpart
        cases List.mem_singleton.mp hpart
        rw [String.toList_ofList]
        exact h

end Cutting

namespace Block

/-- In contents without quotes whose braces pair, the bars and the colons at the top level stand
outside all nested blocks exactly if those inside are shielded by an open bracket; then no part of the
block has half of a nested block. -/
theorem cuts_outside_iff_shielded (content : String)
    (hquotes : ∀ c ∈ content.toList, isQuote c = false) (hbraces : BracesPair content.toList) :
    (∀ separator, separator = '|' ∨ separator = ':' →
      ((∀ n ∈ topLevelOffsets separator content.toList, EndsOutside (content.toList.take n)) ↔
        Shielded separator content.toList)) ∧
    (Shielded '|' content.toList → Shielded ':' content.toList →
      ∀ text ∈ (classify content).texts, BracesPair text.toList) := by
  constructor
  · intro separator hseparator
    have hsep : IsSeparator separator := by
      rcases hseparator with rfl | rfl
      · exact isSeparator_bar
      · exact isSeparator_colon
    exact (forall_mem_topLevelOffsets_iff hsep hquotes).trans (cutsOutside_iff_shielded hbraces)
  · intro hbar hcolon text htext
    have hbar' := ((cutsOutside_iff_shielded hbraces).mpr hbar).trim
    have hcolon' := ((cutsOutside_iff_shielded hbraces).mpr hcolon).trim
    obtain ⟨left, right, hcontent, -, -⟩ := exists_append_trim content.toList
    have hquotes' : ∀ c ∈ trim content.toList, isQuote c = false := by
      intro c hc
      apply hquotes
      rw [hcontent]
      simp [hc]
    unfold classify at htext
    by_cases hempty : (trim content.toList).isEmpty
    · simp only [hempty, if_true] at htext
      cases htext
    · simp only [hempty] at htext
      exact bracesPair_ofChars hquotes' hbraces.trim hbar' hcolon' htext

/-- A smiley closes the depth of the block that it stands in, and the bar after it cuts the block. -/
theorem nested_block_cut_at_smiley :
    let content := "a\x7b:)|x\x7d"
    (∀ c ∈ content.toList, isQuote c = false) ∧ BracesPair content.toList ∧
      (∃ n ∈ topLevelOffsets '|' content.toList, ¬ EndsOutside (content.toList.take n)) ∧
      ∃ text ∈ (classify content).texts, ¬ BracesPair text.toList := by
  intro content
  refine ⟨?_, by decide +kernel, by decide +kernel, by decide +kernel⟩
  have hall : content.toList.all (!isQuote ·) := by decide +kernel
  simpa using hall

/-- The same smiley at the end of a nested block does no harm. -/
theorem cuts_outside_iff_shielded_of_last_smiley :
    let content := "$gold > 3 : \x7ba|b :)\x7d | (none)"
    (∀ c ∈ content.toList, isQuote c = false) ∧ BracesPair content.toList ∧
      Shielded '|' content.toList ∧ Shielded ':' content.toList ∧
      ∀ text ∈ (classify content).texts, BracesPair text.toList := by
  intro content
  have hall : content.toList.all (!isQuote ·) := by decide +kernel
  have hquotes : ∀ c ∈ content.toList, isQuote c = false := by simpa using hall
  have hbraces : BracesPair content.toList := by decide +kernel
  obtain ⟨hiff, hparts⟩ := cuts_outside_iff_shielded content hquotes hbraces
  have hbar : Shielded '|' content.toList := (hiff '|' (.inl rfl)).mp (by decide +kernel)
  have hcolon : Shielded ':' content.toList := (hiff ':' (.inr rfl)).mp (by decide +kernel)
  exact ⟨hquotes, hbraces, hbar, hcolon, hparts hbar hcolon⟩

end Block

end QualityScript
