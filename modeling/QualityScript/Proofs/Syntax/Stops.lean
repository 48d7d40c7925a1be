import QualityScript.Proofs.Syntax.Reading

/-!
# Where tokens stop

No token goes on with a blank or a semicolon. So a text that ends before one of them is read like the
longer text, as far as the tokens lie in it.
-/

namespace QualityScript

open Text

theorem isIdentChar_of_isBlank {c : Char} (h : isBlank c) : isIdentChar c = false := by
  have hwide : ∀ r ∈ blankRanges, ∀ n ∈ List.range' r.1 (r.2 + 1 - r.1),
      inRanges letterRanges n = false ∧ inRanges numeralRanges n = false := by
    decide +kernel
  by_cases hlow : c.toNat < 128
  · have hnarrow : ∀ n < 128, (n = 32 ∨ 9 ≤ n ∧ n ≤ 13) → isIdentChar (Char.ofNat n) = false := by
      decide +kernel
    simp only [isBlank, hlow, if_true, Bool.or_eq_true, beq_iff_eq, Bool.and_eq_true,
      decide_eq_true_eq] at h
    have hspace : c = ' ' → c.toNat = 32 := fun h => h ▸ rfl
    simpa using hnarrow c.toNat hlow (h.imp_left hspace)
  · simp only [isBlank, hlow, if_false, inRanges, List.any_eq_true, Bool.and_eq_true,
      decide_eq_true_eq] at h
    obtain ⟨r, hr, hfirst, hlast⟩ := h
    obtain ⟨hletter, hnumeral⟩ := hwide r hr c.toNat (List.mem_range'_1.mpr (by omega))
    have hunderscore : c ≠ '_' := by
      rintro rfl
      exact hlow (by decide)
    simp [isIdentChar, isAlphanumeric, isLetter, isNumeral, hlow, hletter, hnumeral, hunderscore]

theorem isIdentChar_of_isDigit {c : Char} (h : c.isDigit) : isIdentChar c := by
  have hlow : c.toNat < 128 := by
    simp only [Char.isDigit, Bool.and_eq_true, decide_eq_true_eq] at h
    have := UInt32.le_iff_toNat_le.mp h.2
    have : ('9'.val).toNat < 128 := by decide
    change c.val.toNat < 128
    omega
  simp [isIdentChar, isAlphanumeric, isNumeral, hlow, h]

/-- A character that no token goes on with. -/
structure IsStop (c : Char) : Prop where
  ident : isIdentChar c = false
  dot : c ≠ '.'
  bracket : c ≠ '['
  pair : ∀ c', Token.pairOp? c' c = none

namespace IsStop

variable {c : Char}

theorem digit (h : IsStop c) : c.isDigit = false := by
  cases hd : c.isDigit with
  | false => rfl
  | true => exact absurd (isIdentChar_of_isDigit hd) (by simp [h.ident])

theorem letter (h : IsStop c) : isLetter c = false := by
  cases hl : isLetter c with
  | false => rfl
  | true => exact absurd (isIdentChar_of_isLetter hl) (by simp [h.ident])

theorem semicolon : IsStop ';' where
  ident := by decide
  dot := by decide
  bracket := by decide
  pair c' := by unfold Token.pairOp?; split <;> first | rfl | contradiction

theorem of_isBlank (h : isBlank c) : IsStop c where
  ident := isIdentChar_of_isBlank h
  dot := by rintro rfl; cases h
  bracket := by rintro rfl; cases h
  pair c' := by
    unfold Token.pairOp?
    split <;> first | rfl | (exfalso; revert h; decide)

end IsStop

/-- What follows a text begins, if at all, with a character that no token goes on with. -/
def Stops (more : List Char) : Prop := ∀ c ∈ more.head?, IsStop c

namespace Stops

variable {more : List Char}

theorem semicolon (more : List Char) : Stops (';' :: more) := by
  rintro c ⟨⟩
  exact .semicolon

theorem of_isBlank (h : ∀ c ∈ more, isBlank c) : Stops more := fun c hc =>
  .of_isBlank (h c (List.mem_of_head? hc))

/-- A span of characters that no stop belongs to ends before what follows. -/
theorem span_append (h : Stops more) {p : Char → Bool} (hp : ∀ c, IsStop c → p c = false)
    (text : List Char) :
    (text ++ more).takeWhile p = text.takeWhile p ∧
      (text ++ more).dropWhile p = text.dropWhile p ++ more := by
  induction text with
  | nil =>
    cases more with
    | nil => exact ⟨rfl, rfl⟩
    | cons c rest => simp [hp c (h c rfl)]
  | cons c rest ih =>
    cases hc : p c with
    | true => simpa [hc] using ih
    | false => simp [hc]

theorem spanIdent_append (h : Stops more) (text : List Char) :
    spanIdent (text ++ more) = ((spanIdent text).1, (spanIdent text).2 ++ more) :=
  have hspan := h.span_append (fun _ hc => hc.ident) text
  Prod.ext hspan.1 hspan.2

theorem spanDigits_append (h : Stops more) (text : List Char) :
    Number.spanDigits (text ++ more) =
      ((Number.spanDigits text).1, (Number.spanDigits text).2 ++ more) :=
  have hspan := h.span_append (fun _ hc => hc.digit) text
  Prod.ext hspan.1 hspan.2

theorem head?_any (h : Stops more) {p : Char → Bool} (hp : ∀ c, IsStop c → p c = false)
    (text : List Char) : (text ++ more).head?.any p = text.head?.any p := by
  cases text with
  | cons => rfl
  | nil =>
    cases more with
    | nil => rfl
    | cons c rest => simp [hp c (h c rfl)]

/-! ## References -/

theorem spanProperty_append (h : Stops more) (text : List Char) :
    Reference.spanProperty (text ++ more) =
      ((Reference.spanProperty text).1, (Reference.spanProperty text).2 ++ more) := by
  cases text with
  | cons c rest =>
    simp only [Reference.spanProperty, List.cons_append]
    rw [← List.cons_append, h.spanIdent_append]
    split <;> rfl
  | nil =>
    cases more with
    | nil => rfl
    | cons c rest => simp [Reference.spanProperty, (h c rfl).letter]

theorem spanNamed?_append (h : Stops more) (scope : Scope) (text : List Char) :
    Reference.spanNamed? scope (text ++ more) =
      (Reference.spanNamed? scope text).map fun (r, rest) => (r, rest ++ more) := by
  unfold Reference.spanNamed?
  rw [h.spanIdent_append]
  obtain ⟨id, after⟩ := spanIdent text
  cases id with
  | nil => rfl
  | cons i id =>
    rcases after with _ | ⟨c, _ | ⟨c', rest⟩⟩
    · rcases more with _ | ⟨m, more⟩
      · rfl
      · have := (h m rfl).dot
        simp_all
    · by_cases hdot : c = '.'
      · subst hdot
        rcases more with _ | ⟨m, more⟩
        · rfl
        · simp [(h m rfl).letter]
      · simp_all
    · by_cases hdot : c = '.'
      · subst hdot
        cases hletter : isLetter c' with
        | false => simp [hletter]
        | true =>
          have := h.spanProperty_append (c' :: rest)
          simp_all
      · simp_all

theorem span?_append (h : Stops more) (marker : Char) (text : List Char) :
    Reference.span? (marker :: (text ++ more)) =
      (Reference.span? (marker :: text)).map fun (r, rest) => (r, rest ++ more) := by
  by_cases hmarker : marker = '$'
  · subst hmarker
    rcases text with _ | ⟨c, rest⟩
    · rcases more with _ | ⟨m, more⟩
      · rfl
      · have hnamed := h.spanNamed?_append .player []
        have := (h m rfl).dot
        simp_all [Reference.span?]
    · by_cases hdot : c = '.'
      · subst hdot
        simp [Reference.span?, h.spanProperty_append]
      · have hnamed := h.spanNamed?_append .player (c :: rest)
        simp_all [Reference.span?]
  · by_cases hworld : marker = '#'
    · subst hworld
      exact h.spanNamed?_append .world text
    · simp_all [Reference.span?]

end Stops

/-! ## Tokens -/

theorem quoteLength?_of_append {q : Char} {text more : List Char} {n : Nat}
    (h : quoteLength? q (text ++ more) = some n) (hn : n < text.length) :
    quoteLength? q text = some n := by
  induction text generalizing n with
  | nil => cases hn
  | cons c rest ih =>
    rw [List.cons_append] at h
    unfold quoteLength? at h ⊢
    split at h
    · next hc => rw [if_pos hc, ← h]
    · next hc =>
      obtain ⟨m, hm, rfl⟩ := Option.map_eq_some_iff.mp h
      rw [List.length_cons] at hn
      rw [if_neg hc, ih hm (by omega)]
      rfl

/-- The quote that is open at the start of a bracketed text ends in it. -/
theorem mem_take_of_closingBracket? {depth n : Nat} {q before : Char} {text : List Char}
    (h : Token.closingBracket? depth (some q) before text = some n) : q ∈ text.take n := by
  induction text generalizing before n with
  | nil => cases h
  | cons c rest ih =>
    simp only [Token.closingBracket?] at h
    obtain ⟨m, hm, rfl⟩ := Option.map_eq_some_iff.mp h
    by_cases hc : c = q
    · simp [hc]
    · rw [if_neg hc] at hm
      exact .tail _ (ih hm)

/-- Where square brackets end is seen from the text up to there. -/
theorem closingBracket?_of_append {depth n : Nat} {quote : Option Char} {before : Char}
    {text more : List Char}
    (h : Token.closingBracket? depth quote before (text ++ more) = some n) (hn : n < text.length) :
    Token.closingBracket? depth quote before text = some n := by
  induction text generalizing depth quote before n with
  | nil => cases hn
  | cons c rest ih =>
    have step {depth : Nat} {quote : Option Char}
        (h : (Token.closingBracket? depth quote c (rest ++ more)).map (· + 1) = some n) :
        (Token.closingBracket? depth quote c rest).map (· + 1) = some n := by
      obtain ⟨m, hm, rfl⟩ := Option.map_eq_some_iff.mp h
      rw [List.length_cons] at hn
      rw [ih hm (by omega)]
      rfl
    rw [List.cons_append] at h
    unfold Token.closingBracket? at h ⊢
    split at h
    · exact step h
    · split at h
      · next hopen => rw [if_pos hopen]; exact step h
      · next hopen =>
        rw [if_neg hopen]
        split at h
        · next hclose =>
          rw [if_pos hclose]
          split at h
          · exact h
          · exact step h
        · next hclose =>
          rw [if_neg hclose]
          split at h
          · next hquote =>
            obtain ⟨m, hm, rfl⟩ := Option.map_eq_some_iff.mp h
            have hmem := mem_take_of_closingBracket? hm
            rw [List.length_cons] at hn
            rw [List.take_append_of_le_length (by omega)] at hmem
            have hcontains : rest.contains c := List.contains_iff_mem.mpr (List.mem_of_mem_take hmem)
            rw [if_pos (by simp_all)]
            exact step h
          · next hquote =>
            have hcontains : (startsQuote (some before) c && rest.contains c) = false := by
              simp_all
            rw [hcontains]
            exact step h

/-- Square brackets that end in a text are read from it alone. -/
theorem bracketed?_of_append {text more inside : List Char}
    (h : Token.bracketed? (text ++ more) = some inside) (hlength : inside.length < text.length) :
    Token.bracketed? text = some inside := by
  obtain ⟨n, hn, heq⟩ := Option.map_eq_some_iff.mp h
  have hlt : n < text.length := by
    have := congrArg List.length heq
    rw [List.length_take, List.length_append] at this
    omega
  rw [Token.bracketed?, closingBracket?_of_append hn hlt, Option.map_some, ← heq,
    List.take_append_of_le_length (by omega)]

namespace Stops

open Lexer

variable {more : List Char} {text : List Char} {t : Token} {n : Nat}

theorem takeText_of_append {q : Char} (h : takeText q (text ++ more) = .ok (t, n))
    (hn : n ≤ text.length) : takeText q text = .ok (t, n) := by
  unfold takeText at h ⊢
  split at h
  · next m hm =>
    cases h
    rw [quoteLength?_of_append hm (by omega)]
    simp only [List.take_append_of_le_length (show m ≤ text.length by omega)]
  · cases h

theorem takeNumber_append (h : Stops more) (text : List Char) :
    takeNumber (text ++ more) = takeNumber text := by
  unfold takeNumber
  rw [h.spanDigits_append]
  obtain ⟨whole, rest⟩ := Number.spanDigits text
  rcases rest with _ | ⟨c, rest⟩
  · rcases more with _ | ⟨m, more⟩
    · rfl
    · have := (h m rfl).dot
      simp_all
  · by_cases hdot : c = '.'
    · subst hdot
      simp only [List.cons_append, h.spanDigits_append]
      rcases Number.spanDigits rest with ⟨_ | _, _⟩ <;> rfl
    · simp_all

theorem takeRef_of_append (h : Stops more) {marker : Char}
    (hread : takeRef marker (text ++ more) = .ok (t, n)) (hn : n ≤ text.length) :
    takeRef marker text = .ok (t, n) := by
  rcases more with _ | ⟨m, more⟩
  · rwa [List.append_nil] at hread
  have hm := (h m rfl).bracket
  unfold takeRef at hread ⊢
  rw [h.span?_append] at hread
  cases hspan : Reference.span? (marker :: text) with
  | none => simp [hspan] at hread
  | some found =>
    obtain ⟨reference, after⟩ := found
    rcases after with _ | ⟨c, after⟩
    · simp_all
    · by_cases hbracket : c = '['
      · subst hbracket
        obtain ⟨passed, rfl⟩ := Reference.span?_suffix hspan
        simp only [hspan, Option.map_some, List.cons_append] at hread ⊢
        split at hread
        · next notes hnotes =>
          cases hread
          simp only [List.length_append, List.length_cons] at hn
          rw [bracketed?_of_append hnotes (by omega)]
          simp only [List.length_append, List.length_cons, Except.ok.injEq, Prod.mk.injEq, true_and]
          omega
        · cases hread
      · simp_all
        omega

theorem takeAlias_append (h : Stops more) (text : List Char) :
    takeAlias (text ++ more) = takeAlias text := by
  unfold takeAlias
  rw [h.spanIdent_append]
  rcases spanIdent text with ⟨_ | _, _⟩ <;> rfl

theorem takePercent_of_append (h : Stops more) {readCall : CallReader}
    (hread : Lexer.takePercent readCall (text ++ more) = .ok (t, n)) (hn : n ≤ text.length) :
    Lexer.takePercent readCall text = .ok (t, n) := by
  rcases more with _ | ⟨m, more⟩
  · rwa [List.append_nil] at hread
  have hm := (h m rfl).bracket
  unfold Lexer.takePercent at hread ⊢
  rw [h.head?_any (fun _ hc => hc.letter)] at hread
  cases hletter : text.head?.any isLetter with
  | false => simpa [hletter] using hread
  | true =>
    simp only [hletter, if_true, h.spanIdent_append] at hread ⊢
    have hlength := congrArg List.length (QualityScript.Text.spanIdent_append text)
    rw [List.length_append] at hlength
    rcases hafter : (spanIdent text).2 with _ | ⟨c, after⟩
    · simp_all
    · by_cases hbracket : c = '['
      · subst hbracket
        simp only [hafter, List.cons_append] at hread ⊢
        split at hread
        · next arguments harguments =>
          obtain ⟨call, hcall, heq⟩ := exists_of_map_eq_ok hread
          cases heq
          rw [hafter, List.length_cons] at hlength
          rw [bracketed?_of_append harguments (by omega)]
          simp only [hcall]
          rfl
        · cases hread
      · simp_all

theorem takeOp_append (h : Stops more) (c : Char) (text : List Char) :
    takeOp c (text ++ more) = takeOp c text := by
  unfold takeOp
  rcases text with _ | _
  · rcases more with _ | ⟨m, more⟩
    · rfl
    · simp [(h m rfl).pair]
  · rfl

/-- A token that lies in a text is read from the text alone. -/
theorem takeToken_of_append (h : Stops more) {readCall : CallReader} {c : Char}
    (hread : takeToken readCall c (text ++ more) = .ok (t, n)) (hn : n ≤ text.length) :
    takeToken readCall c text = .ok (t, n) := by
  unfold takeToken at hread ⊢
  rw [h.head?_any fun _ hc => hc.digit] at hread
  split at hread
  · next hc => rw [if_pos hc]; exact takeText_of_append hread hn
  · next hc =>
    rw [if_neg hc]
    split at hread
    · next hc => rwa [if_pos hc, ← h.takeNumber_append]
    · next hc =>
      rw [if_neg hc]
      split at hread
      · next hc => rw [if_pos hc]; exact h.takeRef_of_append hread hn
      · next hc =>
        rw [if_neg hc]
        split at hread
        · next hc => rwa [if_pos hc, ← h.takeAlias_append]
        · next hc =>
          rw [if_neg hc]
          split at hread
          · next hc => rw [if_pos hc]; exact h.takePercent_of_append hread hn
          · next hc =>
            rw [if_neg hc]
            split at hread
            · next hc => rwa [if_pos hc, ← congrArg Prod.fst (h.spanIdent_append text)]
            · next hc => rwa [if_neg hc, ← h.takeOp_append]

end Stops

end QualityScript
