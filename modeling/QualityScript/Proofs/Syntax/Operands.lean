import QualityScript.Proofs.Syntax.Scanning
import QualityScript.Proofs.Syntax.Numerals
import QualityScript.Proofs.Syntax.Chance

/-!
# Operands

Words, decimals and references are one token each wherever a blank follows or nothing does.
-/

namespace QualityScript

open Text Lexer Grammar

/-- The text is a token wherever no token goes on behind it. -/
def IsToken (text : List Char) (t : Token) : Prop :=
  ∀ (readCall : CallReader) (more : List Char), Stops more →
    tokens readCall (text ++ more) = (tokens readCall more).map (t :: ·)

theorem Stops.nil : Stops [] := by
  rintro c ⟨⟩

theorem Stops.blank {c : Char} (h : isBlank c) (more : List Char) : Stops (c :: more) := by
  rintro d ⟨⟩
  exact .of_isBlank h

theorem tokens_blank {c : Char} (h : isBlank c) (readCall : CallReader) (rest : List Char) :
    tokens readCall (c :: rest) = tokens readCall rest := by
  rw [tokens, if_pos h]

theorem tokens_cons {readCall : CallReader} {c : Char} {taken more : List Char} {t : Token}
    (hblank : isBlank c = false)
    (h : takeToken readCall c (taken ++ more) = .ok (t, taken.length)) :
    tokens readCall (c :: (taken ++ more)) = (tokens readCall more).map (t :: ·) := by
  rw [tokens, if_neg (by simp [hblank]), h]
  simp only [List.drop_left]

/-- A letter or an underscore, and characters of identifiers behind it. -/
def IsWord (text : List Char) : Prop :=
  ∃ c rest, text = c :: rest ∧ (isLetter c || c == '_') ∧ ∀ d ∈ rest, isIdentChar d

theorem spanIdent_of_forall {name more : List Char} (h : ∀ c ∈ name, isIdentChar c)
    (hmore : Stops more) : spanIdent (name ++ more) = (name, more) := by
  have htake : name.takeWhile isIdentChar = name := List.takeWhile_eq_self_iff.mpr h
  have hdrop : name.dropWhile isIdentChar = [] := List.dropWhile_eq_nil_iff.mpr h
  rw [hmore.spanIdent_append, spanIdent, htake, hdrop, List.nil_append]

theorem isDigit_of_isLetter {c : Char} (h : isLetter c || c == '_') : c.isDigit = false := by
  cases hdigit : c.isDigit with
  | false => rfl
  | true =>
    have hlow : 48 ≤ c.toNat ∧ c.toNat ≤ 57 := by
      simp only [Char.isDigit, Bool.and_eq_true, decide_eq_true_eq, ge_iff_le,
        UInt32.le_iff_toNat_le] at hdigit
      exact hdigit
    have hnone : ∀ n < 58, 48 ≤ n →
        (isLetter (Char.ofNat n) || Char.ofNat n == '_') = false := by decide
    have hself := hnone c.toNat (by omega) hlow.1
    rw [Char.ofNat_toNat, h] at hself
    cases hself

theorem isIdentChar_of_begins {c : Char} (h : isLetter c || c == '_') : isIdentChar c := by
  simp only [Bool.or_eq_true, beq_iff_eq] at h
  rcases h with hletter | rfl
  · exact isIdentChar_of_isLetter hletter
  · decide

theorem takeToken_word {c : Char} (hc : isLetter c || c == '_') (readCall : CallReader)
    (rest : List Char) : takeToken readCall c rest =
      .ok (.word (String.ofList (c :: (spanIdent rest).1)), (spanIdent rest).1.length) := by
  have hident := isIdentChar_of_begins hc
  have hne {d : Char} (hd : isIdentChar d = false) : c ≠ d := by
    rintro rfl
    rw [hident] at hd
    cases hd
  have hdollar : c ≠ '$' := hne (by decide)
  have hhash : c ≠ '#' := hne (by decide)
  have hat : c ≠ '@' := hne (by decide)
  have hpercent : c ≠ '%' := hne (by decide)
  have hdot : c ≠ '.' := hne (by decide)
  simp [takeToken, (IsInert.of_isIdentChar hident).quote, isDigit_of_isLetter hc, hdollar, hhash, hat,
    hpercent, hdot, hc]

theorem isToken_word {text : String} (h : IsWord text.toList) : IsToken text.toList (.word text) := by
  obtain ⟨c, rest, htext, hc, hrest⟩ := h
  have hinert : IsInert c := .of_isIdentChar (isIdentChar_of_begins hc)
  intro readCall more hmore
  have htake : takeToken readCall c (rest ++ more) = .ok (.word text, rest.length) := by
    have hword : String.ofList (c :: rest) = text := by rw [← htext, String.ofList_toList]
    rw [takeToken_word hc, spanIdent_of_forall hrest hmore, hword]
  rw [htext, List.cons_append]
  exact tokens_cons hinert.blank htake

theorem IsDecimal.isToken {text : List Char} {t : Token} (h : IsDecimal text)
    (htake : takeNumber text = (t, text.length - 1)) : IsToken text t := by
  obtain ⟨c, rest, rfl, hc⟩ := h.exists_cons
  have hinert : IsInert c := by
    rcases hc with hc | ⟨rfl, -⟩
    · exact .of_isIdentChar (isIdentChar_of_isDigit hc)
    · exact .dot
  intro readCall more hmore
  have hbegins : (c.isDigit || (c == '.' && (rest ++ more).head?.any Char.isDigit)) = true := by
    rw [hmore.head?_any fun _ hc => hc.digit]
    rcases hc with hc | ⟨rfl, hrest⟩
    · rw [hc, Bool.true_or]
    · simp [hrest]
  have htoken : takeToken readCall c (rest ++ more) = .ok (t, rest.length) := by
    rw [takeToken, hinert.quote, if_neg Bool.false_ne_true, hbegins, if_pos rfl,
      ← List.cons_append, hmore.takeNumber_append, htake]
    rfl
  exact tokens_cons hinert.blank htoken

/-- A decimal is one token, the number that its text has. -/
theorem IsDecimal.exists_isToken {text : String} (h : IsDecimal text.toList) :
    ∃ t value, IsToken text.toList t ∧ operand? t = some (.literal value) ∧ value.IsNumber ∧
      value.value.number? = Value.readNumber? text := by
  obtain ⟨t, value, htake, hoperand, hnumber, hvalue⟩ := h.exists_takeNumber
  rw [String.ofList_toList] at hvalue
  exact ⟨t, value, h.isToken htake, hoperand, hnumber, hvalue⟩

/-- A text that is a reference as a whole is one token. -/
theorem isToken_of_span? {marker : Char} {text : List Char} {reference : Reference}
    (hmarker : marker = '$' ∨ marker = '#')
    (hspan : Reference.span? (marker :: text) = some (reference, [])) :
    IsToken (marker :: text) (.ref reference .none) := by
  intro readCall more hmore
  have hall : Reference.span? (marker :: (text ++ more)) = some (reference, more) := by
    rw [hmore.span?_append, hspan]
    rfl
  have hlength : (text ++ more).length - more.length = text.length := by simp
  have htakeRef : takeRef marker (text ++ more) = .ok (.ref reference .none, text.length) := by
    unfold takeRef
    rw [hall]
    cases more with
    | nil =>
      dsimp only
      rw [hlength]
    | cons d more =>
      have hbracket : d ≠ '[' := (hmore d rfl).bracket
      split
      · next heq => cases heq
      · next heq =>
        cases heq
        exact absurd rfl hbracket
      · next heq =>
        cases heq
        rw [hlength]
  obtain rfl | rfl := hmarker
  · exact tokens_cons rfl htakeRef
  · exact tokens_cons rfl htakeRef

def Reference.ofName (name : String) : Reference := ⟨.player, name, .value⟩

/-- A name of a quality: characters of identifiers, at least one. -/
structure IsName (name : String) : Prop where
  ne_empty : name.toList ≠ []
  ident : ∀ c ∈ name.toList, isIdentChar c

theorem toList_reference (name : String) : ("$" ++ name).toList = '$' :: name.toList := by simp

theorem isToken_reference {name : String} (h : IsName name) :
    IsToken ("$" ++ name).toList (.ref (.ofName name) .none) := by
  rw [toList_reference]
  refine isToken_of_span? (.inl rfl) ?_
  have hident := spanIdent_of_forall h.ident Stops.nil
  rw [List.append_nil] at hident
  obtain ⟨c, rest, hname⟩ := List.exists_cons_of_ne_nil h.ne_empty
  have hdot : c ≠ '.' := by
    rintro rfl
    have hident := h.ident '.' (by rw [hname]; exact .head _)
    exact absurd hident (by decide)
  have hofList : String.ofList (c :: rest) = name := by rw [← hname, String.ofList_toList]
  rw [hname] at hident ⊢
  simp [Reference.span?, Reference.spanNamed?, hident, hdot, hofList, Reference.ofName]

namespace Expr

theorem parse_of_tokens {text : String} {ts : List Token}
    (h : ∀ readCall, tokens readCall text.toList = .ok ts) : parse text = tree false ts :=
  readAt_of_tokens (h _)

theorem parse_operand {text : String} {t : Token} {e : Expr} (h : IsToken text.toList t)
    (he : operand? t = some e) : parse text = .ok e := by
  have htokens : ∀ readCall, tokens readCall text.toList = .ok [t] := by
    intro readCall
    have htext := h readCall [] .nil
    rw [List.append_nil, tokens] at htext
    exact htext
  rw [parse_of_tokens htokens]
  cases t <;> cases he <;> rfl

end Expr

end QualityScript
