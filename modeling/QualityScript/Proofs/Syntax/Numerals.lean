import QualityScript.Proofs.Syntax.Lexemes
import QualityScript.Proofs.Syntax.Trimming

/-!
# Texts of numbers

Digits with an optional point are read by the lexer, where they stand in a script, and by comparisons,
where they are the text of a value. Both find the same number. The text that is shown for a number is
a number again, so a number and its text compare alike with any other text.
-/

namespace QualityScript

open Text Number

/-- Digits, with a point if digits follow it. -/
inductive IsDecimal : List Char → Prop where
  | whole {digits : List Char} : digits ≠ [] → (∀ c ∈ digits, c.isDigit) → IsDecimal digits
  | fraction {whole fraction : List Char} :
      (∀ c ∈ whole, c.isDigit) → fraction ≠ [] → (∀ c ∈ fraction, c.isDigit) →
      IsDecimal (whole ++ '.' :: fraction)

theorem spanDigits_eq {digits more : List Char} (h : ∀ c ∈ digits, c.isDigit)
    (hmore : ∀ c ∈ more.head?, c.isDigit = false) :
    spanDigits (digits ++ more) = (digits, more) := by
  have htake : more.takeWhile Char.isDigit = [] := by
    cases more with
    | nil => rfl
    | cons c rest => exact List.takeWhile_cons_of_neg (by simp [hmore c rfl])
  have hdrop : more.dropWhile Char.isDigit = more := by
    cases more with
    | nil => rfl
    | cons c rest => exact List.dropWhile_cons_of_neg (by simp [hmore c rfl])
  rw [spanDigits, List.takeWhile_append_of_pos h, List.dropWhile_append_of_pos h, htake, hdrop,
    List.append_nil]

theorem spanDigits_of_forall {digits : List Char} (h : ∀ c ∈ digits, c.isDigit) :
    spanDigits digits = (digits, []) := by
  have hspan : spanDigits (digits ++ []) = (digits, []) := spanDigits_eq h (by simp)
  rwa [List.append_nil] at hspan

theorem spanDigits_point {whole : List Char} (h : ∀ c ∈ whole, c.isDigit) (fraction : List Char) :
    spanDigits (whole ++ '.' :: fraction) = (whole, '.' :: fraction) := by
  apply spanDigits_eq h
  rintro c ⟨⟩
  rfl

theorem readUnsigned?_whole {digits : List Char} (hne : digits ≠ [])
    (h : ∀ c ∈ digits, c.isDigit) :
    readUnsigned? digits = some (floatOfDecimal (natOfDigits digits) 0) := by
  simp [readUnsigned?, spanDigits_of_forall h, hne, readExponent?]

theorem readUnsigned?_fraction {whole fraction : List Char} (hwhole : ∀ c ∈ whole, c.isDigit)
    (hne : fraction ≠ []) (hfraction : ∀ c ∈ fraction, c.isDigit) :
    readUnsigned? (whole ++ '.' :: fraction) =
      some (floatOfDecimal (natOfDigits (whole ++ fraction)) (-fraction.length)) := by
  simp [readUnsigned?, spanDigits_point hwhole, spanDigits_of_forall hfraction, hne, readExponent?]

namespace IsDecimal

variable {text : List Char}

/-- A decimal begins with a digit or with the point, and so has no sign and is no word. -/
theorem exists_cons (h : IsDecimal text) :
    ∃ c rest, text = c :: rest ∧ (c.isDigit ∨ c = '.' ∧ rest.head?.any Char.isDigit) := by
  cases h with
  | whole hne hdigits =>
    obtain ⟨c, rest, rfl⟩ := List.exists_cons_of_ne_nil hne
    exact ⟨c, rest, rfl, .inl (hdigits c (.head _))⟩
  | @fraction whole fraction hwhole hne hfraction =>
    cases whole with
    | nil =>
      obtain ⟨d, more, rfl⟩ := List.exists_cons_of_ne_nil hne
      exact ⟨'.', d :: more, rfl, .inr ⟨rfl, hfraction d (.head _)⟩⟩
    | cons c rest => exact ⟨c, _, rfl, .inl (hwhole c (.head _))⟩

theorem isDigit_or_of_mem (h : IsDecimal text) {c : Char} (hc : c ∈ text) : c.isDigit ∨ c = '.' := by
  cases h with
  | whole _ hdigits => exact .inl (hdigits c hc)
  | fraction hwhole _ hfraction =>
    rcases List.mem_append.mp hc with hc | hc
    · exact .inl (hwhole c hc)
    · rcases List.mem_cons.mp hc with rfl | hc
      · exact .inr rfl
      · exact .inl (hfraction c hc)

theorem isSome_readUnsigned? (h : IsDecimal text) : (readUnsigned? text).isSome := by
  cases h with
  | whole hne hdigits =>
    rw [readUnsigned?_whole hne hdigits]
    rfl
  | fraction hwhole hne hfraction =>
    rw [readUnsigned?_fraction hwhole hne hfraction]
    rfl

theorem spanSign_eq (h : IsDecimal text) : spanSign text = (false, text) := by
  obtain ⟨c, rest, rfl, hc⟩ := h.exists_cons
  have hplus : c ≠ '+' := by
    rintro rfl
    rcases hc with hc | ⟨hc, -⟩ <;> cases hc
  have hminus : c ≠ '-' := by
    rintro rfl
    rcases hc with hc | ⟨hc, -⟩ <;> cases hc
  unfold spanSign
  split
  · next heq =>
    cases heq
    exact absurd rfl hminus
  · next heq =>
    cases heq
    exact absurd rfl hplus
  · rfl

theorem toLower_ne (h : IsDecimal text) {word : String}
    (hword : word.toList.head? = some 'i' ∨ word.toList.head? = some 'n') :
    String.ofList (text.map Char.toLower) ≠ word := by
  obtain ⟨c, rest, rfl, hc⟩ := h.exists_cons
  have hsmall : c.val.toNat < 65 := by
    rcases hc with hc | ⟨rfl, -⟩
    · simp only [Char.isDigit, Bool.and_eq_true, decide_eq_true_eq, ge_iff_le,
        UInt32.le_iff_toNat_le] at hc
      have hnine : '9'.val.toNat = 57 := rfl
      omega
    · decide
  have hlower : c.toLower = c := by
    apply dif_neg
    rintro ⟨hupper, -⟩
    have hle := UInt32.le_iff_toNat_le.mp hupper
    have hA : 'A'.val.toNat = 65 := rfl
    omega
  rintro rfl
  have hfirst : c = 'i' ∨ c = 'n' := by simpa [hlower] using hword
  have hlarge : 65 ≤ c.val.toNat := by
    rcases hfirst with rfl | rfl <;> decide
  omega

/-- Without a sign and without a word a decimal is read digit by digit. -/
theorem readFloat?_eq (h : IsDecimal text) : readFloat? text = readUnsigned? text := by
  simp only [readFloat?, h.spanSign_eq, Bool.false_eq_true, if_false, Option.map_id']
  split
  · next heq => exact absurd heq (h.toLower_ne (by decide))
  · next heq => exact absurd heq (h.toLower_ne (by decide))
  · next heq => exact absurd heq (h.toLower_ne (by decide))
  · rfl

theorem isSome_readFloat?_signed (h : IsDecimal text) (negative : Bool) :
    (readFloat? (signText negative ++ text)).isSome := by
  have hsome := h.isSome_readUnsigned?
  cases negative with
  | false =>
    rw [signText, if_neg Bool.false_ne_true, List.nil_append, h.readFloat?_eq]
    exact hsome
  | true =>
    simp only [signText, if_true, List.singleton_append, readFloat?, spanSign, Option.isSome_map]
    split
    · next heq => exact absurd heq (h.toLower_ne (by decide))
    · next heq => exact absurd heq (h.toLower_ne (by decide))
    · next heq => exact absurd heq (h.toLower_ne (by decide))
    · exact hsome

theorem trim_signed (h : IsDecimal text) (negative : Bool) :
    trim (signText negative ++ text) = signText negative ++ text := by
  apply trim_eq_self_of_forall
  intro c hc
  rcases List.mem_append.mp hc with hsign | hc
  · cases negative
    · cases hsign
    · cases List.mem_singleton.mp hsign
      rfl
  · rcases h.isDigit_or_of_mem hc with hdigit | rfl
    · exact (IsInert.of_isIdentChar (isIdentChar_of_isDigit hdigit)).blank
    · rfl

theorem readNumber?_eq {text : String} (h : IsDecimal text.toList) :
    Value.readNumber? text = readUnsigned? text.toList := by
  have htrim : trim text.toList = text.toList := h.trim_signed false
  rw [Value.readNumber?, htrim, h.readFloat?_eq]

theorem isSome_readNumber?_signed (h : IsDecimal text) (negative : Bool) :
    (Value.readNumber? (String.ofList (signText negative ++ text))).isSome := by
  rw [Value.readNumber?, String.toList_ofList, h.trim_signed]
  exact h.isSome_readFloat?_signed negative

end IsDecimal

/-! ## Shown numbers -/

theorem isDigit_of_mem_digitsOf {n : Nat} {c : Char} (h : c ∈ digitsOf n) : c.isDigit :=
  Nat.isDigit_of_mem_toDigits (by decide) (by decide) h

theorem isDecimal_digitsOf (n : Nat) : IsDecimal (digitsOf n) :=
  .whole Nat.toDigits_ne_nil fun _ hc => isDigit_of_mem_digitsOf hc

theorem isDigit_of_mem_zeros {n : Nat} {c : Char} (h : c ∈ zeros n) : c.isDigit := by
  rw [List.eq_of_mem_replicate h]
  rfl

theorem isDecimal_of_parts {whole fraction : List Char} (hne : whole ≠ [])
    (hwhole : ∀ c ∈ whole, c.isDigit) (hfraction : ∀ c ∈ fraction, c.isDigit) :
    IsDecimal (whole ++ if fraction.isEmpty then [] else '.' :: fraction) := by
  cases fraction with
  | nil =>
    rw [List.isEmpty_nil, if_pos rfl, List.append_nil]
    exact .whole hne hwhole
  | cons c rest => exact .fraction hwhole (List.cons_ne_nil c rest) hfraction

/-- Both parts of a decimal in positional digits are digits, and the whole part has at least one. -/
theorem isDecimal_positional (d : Decimal) :
    IsDecimal (d.positional.1 ++ if d.positional.2.isEmpty then [] else '.' :: d.positional.2) := by
  have hne : digitsOf d.digits ≠ [] := Nat.toDigits_ne_nil
  have hdigits : ∀ c ∈ digitsOf d.digits, c.isDigit := fun _ hc => isDigit_of_mem_digitsOf hc
  have hpadded (n : Nat) : ∀ c ∈ zeros n ++ digitsOf d.digits, c.isDigit := by
    intro c hc
    rcases List.mem_append.mp hc with hc | hc
    · exact isDigit_of_mem_zeros hc
    · exact hdigits c hc
  unfold Decimal.positional
  dsimp only
  split
  · next p =>
    refine isDecimal_of_parts (by simp [hne]) (fun c hc => ?_) (by simp)
    rcases List.mem_append.mp hc with hc | hc
    · exact hdigits c hc
    · exact isDigit_of_mem_zeros hc
  · next p =>
    split
    · next hplaces =>
      apply isDecimal_of_parts
      · intro hnil
        have hlength := congrArg List.length hnil
        rw [List.length_take, List.length_nil] at hlength
        omega
      · intro c hc
        exact hdigits c (List.mem_of_mem_take hc)
      · intro c hc
        exact hdigits c (List.mem_of_mem_drop hc)
    · apply isDecimal_of_parts (List.cons_ne_nil _ _)
      · intro c hc
        cases List.mem_singleton.mp hc
        rfl
      · exact hpadded _

theorem isSome_readNumber?_plainText (x : Float) :
    (Value.readNumber? (plainText x)).isSome := by
  unfold plainText
  split
  · decide +kernel
  · next negative _ =>
    cases negative <;> decide +kernel
  · next negative m e _ =>
    split
    · exact (isDecimal_digitsOf 0).isSome_readNumber?_signed negative
    · have hshown := (isDecimal_positional (shortest m e)).isSome_readNumber?_signed negative
      rcases hparts : (shortest m e).positional with ⟨whole, fraction⟩
      rw [hparts, ← List.append_assoc] at hshown
      exact hshown

theorem wordText_eq (n : Int64) :
    Value.wordText n = String.ofList (signText (n.toInt < 0) ++ digitsOf n.toInt.natAbs) := by
  rw [Value.wordText]
  apply String.toList_inj.mp
  rw [String.toList_ofList]
  cases n.toInt with
  | ofNat k => exact Nat.toList_repr
  | negSucc k =>
    have hsign : decide (Int.negSucc k < 0) = true := decide_eq_true (Int.negSucc_lt_zero k)
    rw [hsign]
    change ("-" ++ (k + 1).repr).toList = '-' :: Nat.toDigits 10 (k + 1)
    rw [String.toList_append, Nat.toList_repr]
    rfl

theorem Value.isSome_readNumber?_display {value : Value} (h : value.number?.isSome) :
    (readNumber? value.display).isSome := by
  have hword (n : Int64) : (readNumber? (wordText n)).isSome := by
    rw [wordText_eq]
    exact (isDecimal_digitsOf _).isSome_readNumber?_signed _
  cases value with
  | int n => exact hword n
  | float x =>
    change (readNumber? (floatText x)).isSome
    unfold floatText
    split
    · exact hword _
    · exact isSome_readNumber?_plainText x
  | text s => exact h
  | bool | ids | effect | pending => cases h

/-- Whether a value equals a text depends on its number, and on its own text if it is none. -/
theorem CompareOp.compare_eq_text {lhs lhs' : Value} (hnumber : lhs.number? = lhs'.number?)
    (hdisplay : lhs.number? = none → lhs.display = lhs'.display) (s : String) :
    CompareOp.eq.compare lhs (.text s) = CompareOp.eq.compare lhs' (.text s) := by
  unfold compare
  rw [← hnumber]
  cases hlhs : lhs.number? with
  | none => rw [hdisplay hlhs]
  | some a =>
    cases hs : (Value.text s).number? with
    | some b => rfl
    | none =>
      -- The text of a number is a number, which the other text is not.
      have hdiffers {value : Value} (hvalue : value.number? = some a) : (value.display == s) = false := by
        have hsome := Value.isSome_readNumber?_display (Option.isSome_of_eq_some hvalue)
        rw [beq_eq_false_iff_ne]
        rintro rfl
        rw [show Value.readNumber? value.display = none from hs] at hsome
        cases hsome
      have hleft := hdiffers hlhs
      have hright := hdiffers (hnumber.symm.trans hlhs)
      change (lhs.display == s) = (lhs'.display == s)
      rw [hleft, hright]

/-! ## Number tokens -/

def Literal.IsNumber : Literal → Prop
  | .int _ | .float _ => True
  | .bool _ | .text _ => False

/-- A whole number is a word or a float, and either way the number that its digits spell. -/
theorem exists_wholeNumber (digits : List Char) :
    ∃ value, Grammar.operand? (Lexer.wholeNumber digits) = some (.literal value) ∧
      value.IsNumber ∧ value.value.number? = some (floatOfDecimal (natOfDigits digits) 0) := by
  unfold Lexer.wholeNumber
  dsimp only
  split
  · next hle =>
    refine ⟨.int (Int64.ofNat (natOfDigits digits)), rfl, trivial, ?_⟩
    have hword : (Int64.ofNat (natOfDigits digits)).toInt = natOfDigits digits := by
      apply Int64.toInt_ofNat_of_lt
      unfold maxWord at hle
      omega
    change some (Float.ofInt (Int64.ofNat (natOfDigits digits)).toInt) = _
    rw [hword]
    rfl
  · exact ⟨.float (floatOfDecimal (natOfDigits digits) 0), rfl, trivial, rfl⟩

theorem IsDecimal.exists_takeNumber {text : List Char} (h : IsDecimal text) :
    ∃ t value, Lexer.takeNumber text = (t, text.length - 1) ∧
      Grammar.operand? t = some (.literal value) ∧ value.IsNumber ∧
      value.value.number? = Value.readNumber? (String.ofList text) := by
  have hread : Value.readNumber? (String.ofList text) = readUnsigned? text := by
    have hchars : IsDecimal (String.ofList text).toList := by rwa [String.toList_ofList]
    rw [hchars.readNumber?_eq, String.toList_ofList]
  rw [hread]
  cases h with
  | whole hne hdigits =>
    obtain ⟨value, hoperand, hnumber, hvalue⟩ := exists_wholeNumber text
    refine ⟨Lexer.wholeNumber text, value, ?_, hoperand, hnumber, ?_⟩
    · rw [Lexer.takeNumber, spanDigits_of_forall hdigits]
    · rw [hvalue, readUnsigned?_whole hne hdigits]
  | @fraction whole fraction hwhole hne hfraction =>
    refine ⟨.float (floatOfDecimal (natOfDigits (whole ++ fraction)) (-fraction.length)),
      .float (floatOfDecimal (natOfDigits (whole ++ fraction)) (-fraction.length)), ?_, rfl,
      trivial, ?_⟩
    · obtain ⟨c, rest, rfl⟩ := List.exists_cons_of_ne_nil hne
      simp only [Lexer.takeNumber, spanDigits_point hwhole, spanDigits_of_forall hfraction,
        List.length_append, List.length_cons]
      rfl
    · rw [readUnsigned?_fraction hwhole hne hfraction]
      rfl

end QualityScript
