import QualityScript.Proofs.Syntax.Numerals
import QualityScript.Proofs.Syntax.Opacity
import QualityScript.Proofs.Syntax.Splitting
import QualityScript.Template
import QualityScript.Eval.Block

/-!
# Impersonal texts

A text is impersonal if it names nothing of the player: there is no call in it, and a dollar sign
stands only in `$.`, for the quality that is being shown. Joining such texts makes no new reference,
and taking them apart neither, since no part ends between a dollar sign and its point. So whatever a
block or a template consists of is impersonal if the block or the template is.
-/

namespace QualityScript

open Text Number

/-- Neither a call nor a reference to the player begins anywhere in the text. -/
inductive IsImpersonal : List Char → Prop where
  | nil : IsImpersonal []
  | cons {c : Char} {rest : List Char} : c ≠ '%' → (c = '$' → rest.head? = some '.') →
      IsImpersonal rest → IsImpersonal (c :: rest)

theorem isImpersonal_cons_iff {c : Char} {rest : List Char} :
    IsImpersonal (c :: rest) ↔
      c ≠ '%' ∧ (c = '$' → rest.head? = some '.') ∧ IsImpersonal rest := by
  constructor
  · rintro (_ | ⟨hpercent, hpoint, hrest⟩)
    exact ⟨hpercent, hpoint, hrest⟩
  · rintro ⟨hpercent, hpoint, hrest⟩
    exact .cons hpercent hpoint hrest

def decidableImpersonal : (text : List Char) → Decidable (IsImpersonal text)
  | [] => .isTrue .nil
  | _ :: rest =>
    have := decidableImpersonal rest
    decidable_of_iff' _ isImpersonal_cons_iff

instance : DecidablePred IsImpersonal := decidableImpersonal

/-! ## Parts -/

theorem isImpersonal_of_forall {text : List Char} (h : ∀ c ∈ text, c ≠ '$' ∧ c ≠ '%') :
    IsImpersonal text := by
  induction text with
  | nil => exact .nil
  | cons c rest ih =>
    obtain ⟨hdollar, hpercent⟩ := h c (.head _)
    exact .cons hpercent (fun hc => absurd hc hdollar) (ih fun d hd => h d (.tail _ hd))

theorem isImpersonal_ofList {text : List Char} (h : IsImpersonal text) :
    IsImpersonal (String.ofList text).toList := by
  rwa [String.toList_ofList]

namespace IsImpersonal

variable {a b text : List Char}

theorem tail {c : Char} (h : IsImpersonal (c :: text)) : IsImpersonal text :=
  (isImpersonal_cons_iff.mp h).2.2

theorem append (ha : IsImpersonal a) (hb : IsImpersonal b) : IsImpersonal (a ++ b) := by
  induction ha with
  | nil => exact hb
  | cons hpercent hpoint _ ih =>
    exact .cons hpercent (fun hc => by simp [List.head?_append, hpoint hc]) ih

theorem of_append_right (h : IsImpersonal (a ++ b)) : IsImpersonal b := by
  induction a with
  | nil => exact h
  | cons c rest ih => exact ih h.tail

/-- A front part must not be cut between a dollar sign and its point. -/
theorem of_append_left (h : IsImpersonal (a ++ b)) (hb : b.head? ≠ some '.') : IsImpersonal a := by
  induction a with
  | nil => exact .nil
  | cons c rest ih =>
    obtain ⟨hpercent, hpoint, hrest⟩ := isImpersonal_cons_iff.mp h
    refine .cons hpercent (fun hc => ?_) (ih hrest)
    have hnext := hpoint hc
    cases rest with
    | nil => exact absurd hnext hb
    | cons d rest => exact hnext

theorem of_suffix (h : IsImpersonal text) (hsuffix : a <:+ text) : IsImpersonal a := by
  obtain ⟨front, rfl⟩ := hsuffix
  exact h.of_append_right

/-- A part that ends at the end of the text, or before some character that is no point. -/
theorem between {left middle right : List Char} (h : IsImpersonal text)
    (htext : text = left ++ middle ++ right) (hright : right.head? ≠ some '.') :
    IsImpersonal middle := by
  rw [htext, List.append_assoc] at h
  exact h.of_append_right.of_append_left hright

theorem take {n : Nat} (h : IsImpersonal text) (hn : text[n]? ≠ some '.') :
    IsImpersonal (text.take n) := by
  rw [← List.take_append_drop n text] at h
  exact h.of_append_left (by rwa [List.head?_drop])

theorem trim (h : IsImpersonal text) : IsImpersonal (trim text) := by
  obtain ⟨left, right, htext, -, hright⟩ := exists_append_trim text
  refine h.between htext fun hhead => ?_
  cases hright '.' (List.mem_of_mem_head? hhead)

theorem partText (h : IsImpersonal text) : IsImpersonal (partText text).toList :=
  isImpersonal_ofList h.trim

theorem trimmed {text : String} (h : IsImpersonal text.toList) :
    IsImpersonal (trimmed text).toList :=
  isImpersonal_ofList h.trim

theorem of_mem_splitTopLevel {separator : Char} (hseparator : separator ≠ '.')
    (h : IsImpersonal text) {piece : List Char} (hpiece : piece ∈ splitTopLevel separator text) :
    IsImpersonal piece := by
  obtain ⟨left, right, htext, -, hright⟩ := exists_append_of_mem_splitTopLevel hpiece
  refine h.between htext ?_
  obtain rfl | ⟨tail, rfl, -⟩ := hright
  · simp
  · simpa using hseparator

end IsImpersonal

theorem isImpersonal_of_isIdentChar {text : List Char} (h : ∀ c ∈ text, isIdentChar c) :
    IsImpersonal text := by
  refine isImpersonal_of_forall fun c hc => ⟨?_, ?_⟩
  · rintro rfl
    cases h _ hc
  · rintro rfl
    cases h _ hc

theorem isImpersonal_spanIdent (text : List Char) : IsImpersonal (spanIdent text).1 :=
  isImpersonal_of_isIdentChar fun c => List.all_eq_true.mp List.all_takeWhile c

/-! ## Shown values -/

def isNumeralChar (c : Char) : Bool := c.isAlphanum || c == '.' || c == '-'

theorem isNumeralChar_of_isDecimal {text : List Char} (h : IsDecimal text) {c : Char}
    (hc : c ∈ text) : isNumeralChar c := by
  obtain hdigit | rfl := h.isDigit_or_of_mem hc
  · simp [isNumeralChar, Char.isAlphanum, hdigit]
  · rfl

theorem isNumeralChar_of_mem_signed {negative : Bool} {text : List Char}
    (htext : ∀ c ∈ text, isNumeralChar c) :
    ∀ c ∈ (String.ofList (signText negative ++ text)).toList, isNumeralChar c := by
  rw [String.toList_ofList]
  refine List.forall_mem_append.mpr ⟨?_, htext⟩
  cases negative <;> exact List.all_eq_true.mp rfl

theorem isNumeralChar_of_mem_wordText (n : Int64) :
    ∀ c ∈ (Value.wordText n).toList, isNumeralChar c := by
  rw [wordText_eq]
  exact isNumeralChar_of_mem_signed fun c => isNumeralChar_of_isDecimal (isDecimal_digitsOf _)

theorem isNumeralChar_of_mem_plainText (x : Float) :
    ∀ c ∈ (plainText x).toList, isNumeralChar c := by
  unfold plainText
  split
  · exact List.all_eq_true.mp rfl
  · next negative _ => cases negative <;> exact List.all_eq_true.mp rfl
  · next negative m e _ =>
    split
    · exact isNumeralChar_of_mem_signed (List.all_eq_true.mp rfl)
    · have hshown := isDecimal_positional (shortest m e)
      rcases hparts : (shortest m e).positional with ⟨whole, fraction⟩
      rw [hparts] at hshown
      dsimp only
      rw [List.append_assoc]
      exact isNumeralChar_of_mem_signed fun c => isNumeralChar_of_isDecimal hshown

theorem isImpersonal_of_isNumeralChar {text : List Char} (h : ∀ c ∈ text, isNumeralChar c) :
    IsImpersonal text := by
  refine isImpersonal_of_forall fun c hc => ?_
  constructor <;> rintro rfl <;> cases h _ hc

theorem isImpersonal_wordText (n : Int64) : IsImpersonal (Value.wordText n).toList :=
  isImpersonal_of_isNumeralChar (isNumeralChar_of_mem_wordText n)

theorem isImpersonal_plainText (x : Float) : IsImpersonal (plainText x).toList :=
  isImpersonal_of_isNumeralChar (isNumeralChar_of_mem_plainText x)

/-- The capital form of a character that is no plain one has plain letters at most. -/
theorem isUpper_of_mem_mapCase {n code : Nat} (h : code ∈ mapCase upperSpecial upperRuns n) :
    code = n ∨ 128 ≤ code ∨ 65 ≤ code ∧ code ≤ 90 := by
  have hspecial : ∀ entry ∈ upperSpecial, ∀ code ∈ entry.2,
      128 ≤ code ∨ 65 ≤ code ∧ code ≤ 90 := by decide +kernel
  have hruns : ∀ run ∈ upperRuns,
      128 ≤ run.image ∨ run.first = run.last ∧ 65 ≤ run.image ∧ run.image ≤ 90 := by decide +kernel
  unfold mapCase at h
  split at h
  · next codes hlookup =>
    obtain ⟨front, back, heq, -⟩ := List.lookup_eq_some_iff.mp hlookup
    exact .inr (hspecial (n, codes) (by rw [heq]; simp) code h)
  · cases List.mem_singleton.mp h
    cases hrun : upperRuns.findSome? (·.map? n) with
    | none => exact .inl rfl
    | some image =>
      obtain ⟨run, hmem, hmap⟩ := List.exists_of_findSome?_eq_some hrun
      have himage := hruns run hmem
      unfold CaseRun.map? at hmap
      split at hmap
      · cases hmap
        rw [Option.getD_some]
        omega
      · cases hmap

/-- A plain character that is no letter comes from no other one when capitals are made. -/
theorem eq_of_mem_upper {c d : Char} (hd : d ∈ upper c) (hplain : 0 < d.toNat ∧ d.toNat < 128)
    (hletter : d.isUpper = false) : d = c := by
  unfold upper at hd
  split at hd
  · next hsmall =>
    have hall : ∀ n < 128, (Char.ofNat n).toUpper.isUpper = false →
        (Char.ofNat n).toUpper = Char.ofNat n := by decide +kernel
    obtain rfl := List.mem_singleton.mp hd
    have hupper := hall c.toNat hsmall
    rw [Char.ofNat_toNat] at hupper
    exact hupper hletter
  · next hwide =>
    obtain ⟨code, hcode, rfl⟩ := List.mem_map.mp hd
    have hcases := isUpper_of_mem_mapCase hcode
    -- What is no code point becomes the character zero.
    have hsame : (Char.ofNat code).toNat = code := by
      by_cases hvalid : code.isValidChar
      · rw [Char.ofNat, dif_pos hvalid]
        rfl
      · rw [Char.ofNat, dif_neg hvalid] at hplain
        exact absurd hplain.1 (by decide)
    rw [hsame] at hplain
    have hrange : 65 ≤ code ∧ code ≤ 90 := by omega
    have hall : ∀ code ≤ 90, 65 ≤ code → (Char.ofNat code).isUpper := by decide +kernel
    rw [hall code hrange.2 hrange.1] at hletter
    cases hletter

theorem isImpersonal_capitalize {text : String} (h : IsImpersonal text.toList) :
    IsImpersonal (capitalize text).toList := by
  refine isImpersonal_ofList ?_
  cases htext : text.toList with
  | nil => exact .nil
  | cons c rest =>
    rw [htext] at h
    obtain ⟨hpercent, -, hrest⟩ := isImpersonal_cons_iff.mp h
    by_cases hc : c = '$'
    · subst hc
      exact h
    · refine (isImpersonal_of_forall fun d hd => ?_).append hrest
      constructor <;> rintro rfl
      · exact hc (eq_of_mem_upper hd (by decide) rfl).symm
      · exact hpercent (eq_of_mem_upper hd (by decide) rfl).symm

theorem isImpersonal_ofPart {part : List Char} (h : IsImpersonal part) :
    (∀ c ∈ (Branch.ofPart part).condition, IsImpersonal c.toList) ∧
      IsImpersonal (Branch.ofPart part).result.toList := by
  unfold Branch.ofPart
  split
  · next condition result hbreak =>
    rw [eq_of_breakTopLevel? hbreak] at h
    have hcondition : IsImpersonal condition := h.of_append_left (by simp)
    simpa using ⟨hcondition.partText, h.of_append_right.tail.partText⟩
  · simpa using h.partText

/-- What an impersonal block consists of is impersonal. -/
theorem isImpersonal_classify {input : String} (h : IsImpersonal input.toList) :
    match Block.classify input with
    | .empty => True
    | .assign _ expression => IsImpersonal expression.toList
    | .conditional branches => ∀ b ∈ branches,
        (∀ c ∈ b.condition, IsImpersonal c.toList) ∧ IsImpersonal b.result.toList
    | .choice options => ∀ option ∈ options, IsImpersonal option.toList
    | .leaf source => IsImpersonal source.toList := by
  have htrim := h.trim
  unfold Block.classify
  dsimp only
  generalize trim input.toList = text at htrim
  by_cases hempty : text.isEmpty
  · simp [hempty]
  · simp only [hempty]
    unfold Block.ofChars
    cases hassign : splitAssignment? text with
    | some r =>
      obtain ⟨name, expression⟩ := r
      obtain ⟨left, rfl, -⟩ := exists_append_of_splitAssignment? hassign
      simpa using htrim.of_append_right.partText
    | none =>
      have hpart {part : List Char} (hpart : part ∈ splitTopLevel '|' text) : IsImpersonal part :=
        htrim.of_mem_splitTopLevel (by decide) hpart
      by_cases hcond : (splitTopLevel '|' text).any fun part => !(topLevelOffsets ':' part).isEmpty
      · simp only [hcond, if_true]
        intro b hb
        obtain ⟨part, hmem, rfl⟩ := List.mem_map.mp hb
        exact isImpersonal_ofPart (hpart hmem)
      · by_cases hmany : (splitTopLevel '|' text).length > 1
        · simp only [hcond, hmany, if_true]
          intro option ho
          obtain ⟨part, hmem, rfl⟩ := List.mem_map.mp ho
          exact (hpart hmem).partText
        · simpa [hcond, hmany] using htrim

/-! ## Templates -/

theorem getElem?_closingBrace? {honour : Bool} {depth : Nat} {quote : Option Char} {before : Char}
    {text : List Char} {n : Nat} (h : closingBrace? honour depth quote before text = some n) :
    text[n]? = some '}' := by
  induction text generalizing depth quote before n with
  | nil => cases h
  | cons c rest ih =>
    have step {d : Nat} {q : Option Char}
        (h : (closingBrace? honour d q c rest).map (· + 1) = some n) :
        (c :: rest)[n]? = some '}' := by
      obtain ⟨m, hm, rfl⟩ := Option.map_eq_some_iff.mp h
      simpa using ih hm
    unfold closingBrace? at h
    split at h
    · exact step h
    · split at h
      · exact step h
      · split at h
        · next hc =>
          split at h
          · cases h
            simp [hc]
          · exact step h
        · split at h <;> exact step h

theorem getElem?_blockLength? {text : List Char} {n : Nat} (h : blockLength? text = some n) :
    text[n]? = some '}' := by
  obtain h | ⟨-, h⟩ := Option.or_eq_some_iff.mp ((Option.orElse_eq_or ..).symm.trans h)
  · exact getElem?_closingBrace? h
  · exact getElem?_closingBrace? h

def Segment.text : Segment → String
  | .literal text | .block text => text

theorem isImpersonal_literalPart {collected : List Char} (h : IsImpersonal collected.reverse) :
    ∀ segment ∈ literalPart collected, IsImpersonal segment.text.toList := by
  unfold literalPart
  split
  · exact fun _ hmem => nomatch hmem
  · intro segment hmem
    cases List.mem_singleton.mp hmem
    exact isImpersonal_ofList h

/-- By induction on the scan: what was collected and what is left are impersonal together. -/
theorem isImpersonal_scanFrom (quotesKept : Bool) (offset : Nat) (before : Option Char)
    (collected text : List Char) (h : IsImpersonal (collected.reverse ++ text)) :
    ∀ segment ∈ (scanFrom quotesKept offset before collected text).1,
      IsImpersonal segment.text.toList := by
  fun_induction scanFrom quotesKept offset before collected text with
  | case1 offset before collected => exact isImpersonal_literalPart (by simpa using h)
  | case2 offset before collected rest n hlength _ segments errors hscan ih =>
    rw [hscan] at ih
    have hrest : IsImpersonal rest := h.of_append_right.tail
    have hbrace : rest[n]? = some '}' := getElem?_blockLength? hlength
    intro segment hmem
    simp only [List.mem_append, List.mem_cons] at hmem
    obtain hmem | rfl | hmem := hmem
    · exact isImpersonal_literalPart (h.of_append_left (by simp)) segment hmem
    · exact isImpersonal_ofList (hrest.take (by simp [hbrace]))
    · exact ih (hrest.of_suffix (List.drop_suffix _ _)) segment hmem
  | case3 offset before collected rest =>
    exact isImpersonal_literalPart (by simpa using h)
  | case4 offset before collected c rest _ n _ _ ih =>
    refine ih ?_
    rw [List.reverse_append, List.reverse_reverse, List.append_assoc, List.cons_append,
      List.take_append_drop]
    exact h
  | case5 offset before collected c rest _ _ segments errors hscan ih =>
    rw [hscan] at ih
    exact ih (by simpa using h)

theorem isImpersonal_of_mem_scan {quotesKept : Bool} {input : String}
    (h : IsImpersonal input.toList) {segment : Segment} (hmem : segment ∈ (scan quotesKept input).1) :
    IsImpersonal segment.text.toList :=
  isImpersonal_scanFrom quotesKept 0 none [] input.toList h segment hmem

theorem mem_of_singleBlock? {template : Template} {content : String}
    (h : Template.singleBlock? template = some content) : .block content ∈ template := by
  induction template with
  | nil => cases h
  | cons segment rest ih =>
    cases segment with
    | block inner =>
      simp only [Template.singleBlock?] at h
      split at h
      · cases h
        exact .head _
      · cases h
    | literal text =>
      simp only [Template.singleBlock?] at h
      split at h
      · exact .tail _ (ih h)
      · cases h

theorem isImpersonal_of_nestedBlock? {source content : String} (h : IsImpersonal source.toList)
    (hnested : Eval.nestedBlock? source = some content) : IsImpersonal content.toList := by
  unfold Eval.nestedBlock? at hnested
  split at hnested
  · unfold Template.blockContent? Template.parse at hnested
    split at hnested
    · next template hparse =>
      split at hparse
      · cases hparse
      · next template' hscan =>
        cases hparse
        have hmem : .block content ∈ (scan false source).1 := by
          rw [hscan]
          exact mem_of_singleBlock? hnested
        exact isImpersonal_of_mem_scan h hmem
    · cases hnested
  · cases hnested

end QualityScript
