import QualityScript.Proofs.Syntax.Closing
import QualityScript.Proofs.Syntax.Stops
import QualityScript.Proofs.Syntax.Phrases

/-!
# The characters of tokens

A token is a quoted text, a parenthesis, a semicolon, or a run of characters that open and close
nothing, perhaps with square brackets behind. A scan of a closed text that is at the start of a token
is therefore at its end later, with the same brackets open.
-/

namespace QualityScript

open Text Lexer

/-- A character in a token that neither encloses nor separates. -/
structure IsInert (c : Char) : Prop where
  opening : isOpening c = false
  closing : isClosing c = false
  quote : isQuote c = false
  semicolon : c ≠ ';'
  blank : isBlank c = false

/-- A token that is no quoted text, no parenthesis and no semicolon. -/
def Token.isRun : Token → Bool
  | .text _ | .openParen | .closeParen | .semicolon => false
  | _ => true

/-- The characters of a token where `more` follows them. -/
inductive Lexeme (more : List Char) : Token → List Char → Prop where
  | quoted {s : String} {q : Char} {content : List Char} :
      isQuote q → q ∉ content → Lexeme more (.text s) (q :: (content ++ [q]))
  | run {t : Token} {chars : List Char} :
      t.isRun → chars ≠ [] → (∀ c ∈ chars, IsInert c) →
      (t.endsInWord = false → ∀ c ∈ chars, isAlphanumeric c = false) → Lexeme more t chars
  | bracketed {t : Token} {chars inside : List Char} :
      t.isRun → (∀ c ∈ chars, IsInert c) →
      Token.closingBracket? 0 none '[' (inside ++ ']' :: more) = some inside.length →
      Lexeme more t (chars ++ '[' :: (inside ++ [']']))
  | openParen : Lexeme more .openParen ['(']
  | closeParen : Lexeme more .closeParen [')']
  | semicolon : Lexeme more .semicolon [';']

theorem IsInert.of_isIdentChar {c : Char} (h : isIdentChar c) : IsInert c where
  opening := by
    cases hc : isOpening c with
    | false => rfl
    | true => obtain rfl | rfl | rfl := eq_of_isOpening hc <;> cases h
  closing := by
    cases hc : isClosing c with
    | false => rfl
    | true => obtain rfl | rfl | rfl := eq_of_isClosing hc <;> cases h
  quote := by
    cases hc : isQuote c with
    | false => rfl
    | true =>
      simp only [isQuote, Bool.or_eq_true, beq_iff_eq] at hc
      obtain rfl | rfl := hc <;> cases h
  semicolon := by rintro rfl; cases h
  blank := by
    cases hc : isBlank c with
    | false => rfl
    | true => exact absurd (isIdentChar_of_isBlank hc) (by simp [h])

theorem IsInert.dot : IsInert '.' := by constructor <;> decide

/-- A token with first character `c` takes some characters of what follows. -/
def Takes (c : Char) (rest : List Char) (t : Token) (n : Nat) : Prop :=
  ∃ taken more, rest = taken ++ more ∧ taken.length = n ∧ Lexeme more t (c :: taken)

/-! ## Quoted texts and numbers -/

theorem takes_takeText {q : Char} {rest : List Char} {t : Token} {n : Nat} (hq : isQuote q)
    (h : takeText q rest = .ok (t, n)) : Takes q rest t n := by
  unfold takeText at h
  split at h
  · next m hm =>
    cases h
    obtain ⟨content, more, rfl, rfl, hnot⟩ := eq_of_quoteLength? hm
    exact ⟨content ++ [q], more, by simp, by simp, .quoted hq hnot⟩
  · cases h

theorem wholeNumber_isRun (digits : List Char) :
    (wholeNumber digits).isRun ∧ (wholeNumber digits).endsInWord := by
  unfold wholeNumber
  dsimp only
  split <;> exact ⟨rfl, rfl⟩

theorem isInert_of_mem_spanDigits (text : List Char) {c : Char}
    (h : c ∈ (Number.spanDigits text).1) : IsInert c :=
  .of_isIdentChar (isIdentChar_of_isDigit (List.all_eq_true.mp List.all_takeWhile c h))

theorem spanDigits_append (text : List Char) :
    (Number.spanDigits text).1 ++ (Number.spanDigits text).2 = text :=
  List.takeWhile_append_dropWhile

/-- A run of characters that a word or a number can end with. -/
theorem takes_word {c : Char} {taken more : List Char} {t : Token} {n : Nat} (ht : t.isRun)
    (hword : t.endsInWord) (hc : IsInert c) (hinert : ∀ c ∈ taken, IsInert c)
    (hn : taken.length = n) : Takes c (taken ++ more) t n :=
  ⟨taken, more, rfl, hn, .run ht (by simp) (List.forall_mem_cons.mpr ⟨hc, hinert⟩)
    fun h => by simp [hword] at h⟩

/-- What follows the digits at the start of a text: a point and digits, or nothing of the number. -/
theorem takes_takeNumber {c : Char} {rest : List Char}
    (hc : c.isDigit || (c == '.' && rest.head?.any Char.isDigit)) :
    Takes c rest (takeNumber (c :: rest)).1 (takeNumber (c :: rest)).2 := by
  cases hdigit : c.isDigit with
  | true =>
    have hwhole : Number.spanDigits (c :: rest) =
        (c :: (Number.spanDigits rest).1, (Number.spanDigits rest).2) := by
      simp [Number.spanDigits, hdigit]
    have hinert := IsInert.of_isIdentChar (isIdentChar_of_isDigit hdigit)
    have hrest := spanDigits_append rest
    have hdigits := fun d => isInert_of_mem_spanDigits rest (c := d)
    rcases hspan : Number.spanDigits rest with ⟨whole, after⟩
    rw [hspan] at hwhole hrest hdigits
    rw [← hrest]
    have hrun := wholeNumber_isRun (c :: whole)
    have hplain : Takes c (whole ++ after) (wholeNumber (c :: whole)) ((c :: whole).length - 1) :=
      takes_word hrun.1 hrun.2 hinert hdigits rfl
    unfold takeNumber
    rw [hrest, hwhole, ← hrest]
    rcases after with _ | ⟨d, after⟩
    · exact hplain
    · by_cases hdot : d = '.'
      · subst hdot
        have hfraction := spanDigits_append after
        have hfractions := fun d => isInert_of_mem_spanDigits after (c := d)
        rcases hspan : Number.spanDigits after with ⟨_ | ⟨f, fraction⟩, more⟩
        · simp only [hspan]
          exact hplain
        · rw [hspan] at hfraction hfractions
          simp only [hspan]
          subst hfraction
          rw [show whole ++ '.' :: (f :: fraction ++ more) =
            (whole ++ '.' :: f :: fraction) ++ more by simp]
          refine takes_word rfl rfl hinert (fun d hd => ?_) ?_
          · simp only [List.mem_append, List.mem_cons] at hd
            obtain hd | rfl | hd := hd
            · exact hdigits d hd
            · exact .dot
            · exact hfractions d (by simpa using hd)
          · simp only [List.length_append, List.length_cons]
            omega
      · simp_all
  | false =>
    simp only [hdigit, Bool.false_or, Bool.and_eq_true, beq_iff_eq] at hc
    obtain ⟨rfl, hhead⟩ := hc
    have hwhole : Number.spanDigits ('.' :: rest) = ([], '.' :: rest) := rfl
    have hfraction := spanDigits_append rest
    have hfractions := fun d => isInert_of_mem_spanDigits rest (c := d)
    unfold takeNumber
    rw [hwhole]
    rcases hspan : Number.spanDigits rest with ⟨_ | ⟨f, fraction⟩, more⟩
    · cases rest with
      | nil => cases hhead
      | cons d rest => simp_all [Number.spanDigits]
    · rw [hspan] at hfraction hfractions
      simp only [hspan]
      rw [← hfraction]
      exact takes_word rfl rfl .dot hfractions (by simp)

/-! ## References, names and calls -/

theorem isInert_of_mem_spanIdent (text : List Char) {c : Char} (h : c ∈ (spanIdent text).1) :
    IsInert c :=
  .of_isIdentChar (List.all_eq_true.mp List.all_takeWhile c h)

theorem Reference.exists_of_spanProperty (text : List Char) :
    ∃ passed, text = passed ++ (spanProperty text).2 ∧ ∀ c ∈ passed, IsInert c := by
  unfold spanProperty
  split
  · next c rest =>
    split
    · exact ⟨(spanIdent (c :: rest)).1, (spanIdent_append _).symm,
        fun d => isInert_of_mem_spanIdent (c :: rest)⟩
    · exact ⟨[], rfl, fun _ h => nomatch h⟩
  · exact ⟨[], rfl, fun _ h => nomatch h⟩

theorem Reference.exists_of_spanNamed? {scope : Scope} {text after : List Char} {r : Reference}
    (h : spanNamed? scope text = some (r, after)) :
    ∃ passed, text = passed ++ after ∧ ∀ c ∈ passed, IsInert c := by
  have happend := spanIdent_append text
  have hinert := fun c => isInert_of_mem_spanIdent text (c := c)
  unfold spanNamed? at h
  split at h
  · cases h
  · next id c tail _ heq =>
    rw [heq] at happend hinert
    split at h
    · obtain ⟨passed, hpassed, hall⟩ := exists_of_spanProperty (c :: tail)
      simp only [Option.some.injEq, Prod.mk.injEq] at h
      obtain ⟨-, rfl⟩ := h
      refine ⟨id ++ '.' :: passed, ?_, fun d hd => ?_⟩
      · rw [← happend, List.append_assoc, List.cons_append, ← hpassed]
      · simp only [List.mem_append, List.mem_cons] at hd
        obtain hd | rfl | hd := hd
        · exact hinert d hd
        · exact .dot
        · exact hall d hd
    · cases h
      exact ⟨id, happend.symm, hinert⟩
  · next id tail _ _ heq =>
    rw [heq] at happend hinert
    cases h
    exact ⟨id, happend.symm, hinert⟩

theorem Reference.exists_of_span? {marker : Char} {text after : List Char} {r : Reference}
    (h : span? (marker :: text) = some (r, after)) :
    ∃ passed, text = passed ++ after ∧ ∀ c ∈ passed, IsInert c := by
  unfold span? at h
  split at h
  · next tail heq =>
    cases heq
    obtain ⟨passed, hpassed, hall⟩ := exists_of_spanProperty tail
    cases h
    exact ⟨'.' :: passed, congrArg (List.cons '.') hpassed,
      List.forall_mem_cons.mpr ⟨.dot, hall⟩⟩
  · next heq =>
    cases heq
    exact exists_of_spanNamed? h
  · next heq =>
    cases heq
    exact exists_of_spanNamed? h
  · cases h

theorem eq_of_closingBracket? {depth n : Nat} {quote : Option Char} {before : Char}
    {text : List Char} (h : Token.closingBracket? depth quote before text = some n) :
    ∃ inside more, text = inside ++ ']' :: more ∧ inside.length = n := by
  induction text generalizing depth quote before n with
  | nil => cases h
  | cons c rest ih =>
    have step {depth : Nat} {quote : Option Char}
        (h : (Token.closingBracket? depth quote c rest).map (· + 1) = some n) :
        ∃ inside more, c :: rest = inside ++ ']' :: more ∧ inside.length = n := by
      obtain ⟨m, hm, rfl⟩ := Option.map_eq_some_iff.mp h
      obtain ⟨inside, more, rfl, rfl⟩ := ih hm
      exact ⟨c :: inside, more, rfl, rfl⟩
    unfold Token.closingBracket? at h
    split at h
    · exact step h
    · split at h
      · exact step h
      · split at h
        · split at h
          · split at h
            · next hc =>
              cases h
              exact ⟨[], rest, by rw [hc]; rfl, rfl⟩
            · cases h
          · exact step h
        · split at h <;> exact step h

theorem eq_of_bracketed? {text inside : List Char} (h : Token.bracketed? text = some inside) :
    ∃ more, text = inside ++ ']' :: more ∧
      Token.closingBracket? 0 none '[' text = some inside.length := by
  obtain ⟨n, hn, rfl⟩ := Option.map_eq_some_iff.mp h
  obtain ⟨inside, more, rfl, rfl⟩ := eq_of_closingBracket? hn
  exact ⟨more, by simp, by simpa using hn⟩

theorem takes_bracketed {c : Char} {passed after inside : List Char} {t : Token} {n : Nat}
    (ht : t.isRun) (hc : IsInert c) (hinert : ∀ c ∈ passed, IsInert c)
    (hafter : Token.bracketed? after = some inside) (hn : passed.length + inside.length + 2 = n) :
    Takes c (passed ++ '[' :: after) t n := by
  obtain ⟨more, rfl, hclosing⟩ := eq_of_bracketed? hafter
  refine ⟨passed ++ '[' :: (inside ++ [']']), more, by simp, ?_, ?_⟩
  · simp only [List.length_append, List.length_cons, List.length_nil]
    omega
  · change Lexeme more t ((c :: passed) ++ '[' :: (inside ++ [']']))
    exact .bracketed ht (List.forall_mem_cons.mpr ⟨hc, hinert⟩) hclosing

theorem takes_takeRef {marker : Char} {rest : List Char} {t : Token} {n : Nat}
    (hmarker : marker = '$' ∨ marker = '#') (h : takeRef marker rest = .ok (t, n)) :
    Takes marker rest t n := by
  have hc : IsInert marker := by obtain rfl | rfl := hmarker <;> constructor <;> decide
  unfold takeRef at h
  split at h
  · cases h
  · next reference after hspan =>
    obtain ⟨passed, rfl, hinert⟩ := Reference.exists_of_span? hspan
    split at h
    · next notes hnotes =>
      cases h
      refine takes_bracketed rfl hc hinert hnotes ?_
      simp only [List.length_append, List.length_cons]
      omega
    · cases h
  · next reference after _ hspan =>
    obtain ⟨passed, rfl, hinert⟩ := Reference.exists_of_span? hspan
    cases h
    exact takes_word rfl rfl hc hinert (by simp)

theorem takes_takeAlias {rest : List Char} {t : Token} {n : Nat} (h : takeAlias rest = .ok (t, n)) :
    Takes '@' rest t n := by
  have hinert := fun c => isInert_of_mem_spanIdent rest (c := c)
  unfold takeAlias at h
  split at h
  · cases h
  · next name after _ heq =>
    cases h
    rw [heq] at hinert
    rw [← spanIdent_append rest, heq]
    exact takes_word rfl rfl (by constructor <;> decide) hinert rfl

theorem takes_takePercent {readCall : CallReader} {rest : List Char} {t : Token} {n : Nat}
    (h : Lexer.takePercent readCall rest = .ok (t, n)) : Takes '%' rest t n := by
  have hc : IsInert '%' := by constructor <;> decide
  have hinert := fun c => isInert_of_mem_spanIdent rest (c := c)
  unfold Lexer.takePercent at h
  split at h
  · simp only at h
    split at h
    · next after hafter =>
      split at h
      · next arguments harguments =>
        obtain ⟨c, _, heq⟩ := exists_of_map_eq_ok h
        cases heq
        have hrest := spanIdent_append rest
        rw [hafter] at hrest
        have htakes := takes_bracketed (t := .call c) rfl hc hinert harguments rfl
        rwa [hrest] at htakes
      · cases h
    · cases h
  · cases h
    exact ⟨[], rest, rfl, rfl, .run rfl (by simp) (by simpa using hc)
      fun _ c hc => by cases List.mem_singleton.mp hc; decide⟩

/-! ## Operators -/

structure IsSign (c : Char) : Prop where
  inert : IsInert c
  symbol : isAlphanumeric c = false

theorem isSign_of_mem {c : Char} (h : c ∈ "><=!+-&|*/,~".toList) : IsSign c := by
  have hsigns : "><=!+-&|*/,~".toList.all (fun c =>
      isOpening c = false ∧ isClosing c = false ∧ isQuote c = false ∧ c ≠ ';' ∧
        isBlank c = false ∧ isAlphanumeric c = false) := by
    decide
  obtain ⟨hopening, hclosing, hquote, hsemicolon, hblank, hsymbol⟩ :=
    of_decide_eq_true (List.all_eq_true.mp hsigns c h)
  exact ⟨⟨hopening, hclosing, hquote, hsemicolon, hblank⟩, hsymbol⟩

theorem isSign_of_pairOp? {c c' : Char} {op : Op} (h : Token.pairOp? c c' = some op) :
    IsSign c ∧ IsSign c' := by
  unfold Token.pairOp? at h
  split at h
  case h_15 => cases h
  all_goals exact ⟨isSign_of_mem (by decide), isSign_of_mem (by decide)⟩

theorem takes_takeOp {c : Char} {rest : List Char} {t : Token} {n : Nat}
    (h : takeOp c rest = .ok (t, n)) : Takes c rest t n := by
  unfold takeOp at h
  split at h
  · next op hop =>
    cases h
    rcases rest with _ | ⟨d, rest⟩
    · cases hop
    · obtain ⟨hc, hd⟩ := isSign_of_pairOp? hop
      refine ⟨[d], rest, rfl, rfl, .run rfl (by simp) ?_ fun _ => ?_⟩
      · simpa using ⟨hc.inert, hd.inert⟩
      · simpa using ⟨hc.symbol, hd.symbol⟩
  · split at h
    · next ht =>
      cases h
      refine ⟨[], rest, rfl, rfl, ?_⟩
      unfold Token.single? at ht
      split at ht <;> cases ht <;> first
        | exact .openParen
        | exact .closeParen
        | exact .semicolon
        | exact .run rfl (by simp) (by simpa using by constructor <;> decide)
            fun _ c hc => by cases List.mem_singleton.mp hc; decide
    · cases h

/-- Every token takes the characters of a lexeme. -/
theorem takes_takeToken {readCall : CallReader} {c : Char} {rest : List Char} {t : Token} {n : Nat}
    (h : takeToken readCall c rest = .ok (t, n)) : Takes c rest t n := by
  unfold takeToken at h
  split at h
  · next hq => exact takes_takeText hq h
  · split at h
    · next hnumber =>
      have htakes := takes_takeNumber hnumber
      rwa [Except.ok.inj h] at htakes
    · split at h
      · next hmarker => exact takes_takeRef hmarker h
      · split at h
        · next hc =>
          subst hc
          exact takes_takeAlias h
        · split at h
          · next hc =>
            subst hc
            exact takes_takePercent h
          · split at h
            · next hword =>
              have hc : isIdentChar c := by
                simp only [Bool.or_eq_true, beq_iff_eq] at hword
                obtain hletter | rfl := hword
                · exact isIdentChar_of_isLetter hletter
                · decide
              cases h
              have htakes : Takes c ((spanIdent rest).1 ++ (spanIdent rest).2)
                  (.word (String.ofList (c :: (spanIdent rest).1))) (spanIdent rest).1.length :=
                takes_word rfl rfl (.of_isIdentChar hc)
                  (fun d => isInert_of_mem_spanIdent rest) rfl
              rwa [spanIdent_append] at htakes
            · exact takes_takeOp h

end QualityScript
