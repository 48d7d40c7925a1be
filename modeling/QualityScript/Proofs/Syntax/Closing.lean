import QualityScript.Proofs.Syntax.Splitting
import QualityScript.Expr.Lexer

/-!
# Closed texts

In a closed text the brackets pair by kind and every quoted text ends. Texts are scanned for
separators, for the end of square brackets and for tokens. In closed texts these scans agree on what a
bracket and what a quote encloses.
-/

namespace QualityScript

open Text

def closer : Char → Char
  | '{' => '}'
  | '[' => ']'
  | _ => ')'

/-- Whether brackets pair and quoted texts end. `stack` holds the brackets that are open, the
innermost first, and `quote` is the quote that is open. -/
def isClosedFrom (stack : List Char) (quote before : Option Char) : List Char → Bool
  | [] => stack.isEmpty && quote.isNone
  | c :: rest =>
    match quote with
    | some q => isClosedFrom stack (if c = q then none else some q) (some c) rest
    | none =>
      if isOpening c then isClosedFrom (c :: stack) none (some c) rest
      else if isClosing c then
        match stack with
        | opening :: stack => c == closer opening && isClosedFrom stack none (some c) rest
        | [] => false
      else isClosedFrom stack (if startsQuote before c then some c else none) (some c) rest

/-- The brackets and quotes of a text are closed. -/
def IsClosed (text : List Char) : Prop := isClosedFrom [] none none text = true

instance (text : List Char) : Decidable (IsClosed text) :=
  inferInstanceAs (Decidable (isClosedFrom [] none none text = true))

/-- A character that neither opens nor closes anything. -/
structure IsPlain (before : Option Char) (c : Char) : Prop where
  opening : isOpening c = false
  closing : isClosing c = false
  quote : startsQuote before c = false

theorem isPlain_of_all {chars : List Char}
    (h : chars.all fun c => !isOpening c && !isClosing c && !isQuote c) :
    ∀ c ∈ chars, ∀ before, IsPlain before c := by
  intro c hc before
  have hplain := List.all_eq_true.mp h c hc
  simp only [Bool.and_eq_true, Bool.not_eq_true'] at hplain
  obtain ⟨⟨hopening, hclosing⟩, hquote⟩ := hplain
  exact ⟨hopening, hclosing, by rw [startsQuote, hquote, Bool.false_and]⟩

/-- Character by character, how a closed text is scanned. -/
inductive Closed : List Char → Option Char → Option Char → List Char → Prop where
  | nil {before} : Closed [] none before []
  | quoted {stack before q c rest} :
      Closed stack (if c = q then none else some q) (some c) rest →
      Closed stack (some q) before (c :: rest)
  | opening {stack before c rest} :
      isOpening c → Closed (c :: stack) none (some c) rest → Closed stack none before (c :: rest)
  | closing {stack before opening c rest} :
      isClosing c → c = closer opening → Closed stack none (some c) rest →
      Closed (opening :: stack) none before (c :: rest)
  | quote {stack before c rest} :
      startsQuote before c → Closed stack (some c) (some c) rest →
      Closed stack none before (c :: rest)
  | plain {stack before c rest} :
      IsPlain before c → Closed stack none (some c) rest → Closed stack none before (c :: rest)

theorem closed_of_isClosedFrom {stack : List Char} {quote before : Option Char} {text : List Char}
    (h : isClosedFrom stack quote before text) : Closed stack quote before text := by
  induction text generalizing stack quote before with
  | nil =>
    simp only [isClosedFrom, Bool.and_eq_true, List.isEmpty_iff, Option.isNone_iff_eq_none] at h
    obtain ⟨rfl, rfl⟩ := h
    exact .nil
  | cons c rest ih =>
    unfold isClosedFrom at h
    split at h
    · exact .quoted (ih h)
    · split at h
      · next hopen => exact .opening hopen (ih h)
      · split at h
        · next hclose =>
          split at h
          · simp only [Bool.and_eq_true, beq_iff_eq] at h
            exact .closing hclose h.1 (ih h.2)
          · cases h
        · next hopen hclose =>
          split at h
          · next hquote => exact .quote hquote (ih h)
          · next hquote =>
            exact .plain ⟨by simpa using hopen, by simpa using hclose, by simpa using hquote⟩ (ih h)

namespace Closed

variable {stack : List Char} {quote before : Option Char} {c : Char} {rest text : List Char}

theorem contains {q : Char} (h : Closed stack (some q) before text) : text.contains q := by
  generalize hquote : some q = quote at h
  induction h with
  | @quoted stack before q' c rest _ ih =>
    cases hquote
    by_cases hc : c = q
    · simp [hc]
    · rw [List.contains_cons, ih (by simp [hc]), Bool.or_true]
  | _ => cases hquote

/-- What stands before a text matters only as far as it is a letter or a digit. -/
theorem of_before {before' : Option Char} (h : Closed stack none before text)
    (hbefore : opensQuote before' = opensQuote before) : Closed stack none before' text := by
  cases h with
  | nil => exact .nil
  | opening hopen h => exact .opening hopen h
  | closing hclose heq h => exact .closing hclose heq h
  | quote hquote h => exact .quote (by simpa [startsQuote, hbefore] using hquote) h
  | plain hplain h =>
    exact .plain ⟨hplain.1, hplain.2, by simpa [startsQuote, hbefore] using hplain.3⟩ h

end Closed

theorem eq_of_isOpening {c : Char} (h : isOpening c) : c = '{' ∨ c = '[' ∨ c = '(' := by
  simpa [isOpening, or_assoc] using h

theorem eq_of_isClosing {c : Char} (h : isClosing c) : c = '}' ∨ c = ']' ∨ c = ')' := by
  simpa [isClosing, or_assoc] using h

theorem ne_of_isOpening {c d : Char} (hc : isOpening c = false) (hd : isOpening d) : c ≠ d := by
  rintro rfl
  simp [hc] at hd

theorem ne_of_isClosing {c d : Char} (hc : isClosing c = false) (hd : isClosing d) : c ≠ d := by
  rintro rfl
  simp [hc] at hd

theorem isOpening_of_isClosing {c : Char} (h : isClosing c) : isOpening c = false := by
  obtain rfl | rfl | rfl := eq_of_isClosing h <;> rfl

theorem isBracket_of_startsQuote {before : Option Char} {c : Char} (h : startsQuote before c) :
    isOpening c = false ∧ isClosing c = false := by
  simp only [startsQuote, isQuote, Bool.and_eq_true, Bool.or_eq_true, beq_iff_eq] at h
  obtain ⟨rfl | rfl, -⟩ := h <;> exact ⟨rfl, rfl⟩

theorem isClosedFrom_of_closed {stack : List Char} {quote before : Option Char} {text : List Char}
    (h : Closed stack quote before text) : isClosedFrom stack quote before text := by
  induction h with
  | nil => rfl
  | quoted _ ih => rwa [isClosedFrom]
  | opening hopen _ ih => simpa only [isClosedFrom, hopen, if_true] using ih
  | closing hclose heq _ ih =>
    simp only [isClosedFrom, isOpening_of_isClosing hclose, hclose, Bool.false_eq_true, if_false,
      if_true, Bool.and_eq_true, beq_iff_eq]
    exact ⟨heq, ih⟩
  | quote hquote _ ih =>
    obtain ⟨hopen, hclose⟩ := isBracket_of_startsQuote hquote
    simpa only [isClosedFrom, hopen, hclose, hquote, Bool.false_eq_true, if_false, if_true] using ih
  | plain hplain _ ih =>
    simpa only [isClosedFrom, hplain.opening, hplain.closing, hplain.quote, Bool.false_eq_true,
      if_false] using ih

theorem isClosed_iff_closed {text : List Char} : IsClosed text ↔ Closed [] none none text :=
  ⟨closed_of_isClosedFrom, isClosedFrom_of_closed⟩

theorem IsClosed.closed {text : List Char} (h : IsClosed text) : Closed [] none none text :=
  isClosed_iff_closed.mp h

namespace Closed

variable {stack : List Char} {before : Option Char} {c : Char} {rest : List Char}

theorem of_isOpening (h : Closed stack none before (c :: rest)) (hc : isOpening c) :
    Closed (c :: stack) none (some c) rest := by
  cases h with
  | opening _ h => exact h
  | closing hclose _ _ => simp [isOpening_of_isClosing hclose] at hc
  | quote hquote _ => simp [(isBracket_of_startsQuote hquote).1] at hc
  | plain hplain _ => simp [hplain.opening] at hc

theorem of_isClosing (h : Closed stack none before (c :: rest)) (hc : isClosing c) :
    ∃ opening stack', stack = opening :: stack' ∧ Closed stack' none (some c) rest := by
  cases h with
  | opening hopen _ => simp [isOpening_of_isClosing hc] at hopen
  | closing _ _ h => exact ⟨_, _, rfl, h⟩
  | quote hquote _ => simp [(isBracket_of_startsQuote hquote).2] at hc
  | plain hplain _ => simp [hplain.closing] at hc

theorem of_startsQuote (h : Closed stack none before (c :: rest)) (hquote : startsQuote before c) :
    Closed stack (some c) (some c) rest := by
  obtain ⟨hopen, hclose⟩ := isBracket_of_startsQuote hquote
  cases h with
  | opening h _ => simp [hopen] at h
  | closing h _ _ => simp [hclose] at h
  | quote _ h => exact h
  | plain hplain _ => simp [hplain.quote] at hquote

theorem of_isPlain (h : Closed stack none before (c :: rest)) (hc : IsPlain before c) :
    Closed stack none (some c) rest := by
  cases h with
  | opening hopen _ => simp [hc.opening] at hopen
  | closing hclose _ _ => simp [hc.closing] at hclose
  | quote hquote _ => simp [hc.quote] at hquote
  | plain _ h => exact h

end Closed

/-! ## Scanning for separators -/

section

variable {separator : Char} {stack : List Char} {quote before : Option Char} {c : Char}
  {rest text : List Char}

theorem separatorsFrom_opening (h : isOpening c) (depth offset : Nat) :
    separatorsFrom separator depth none before offset (c :: rest) =
      separatorsFrom separator (depth + 1) none (some c) (offset + 1) rest := by
  rw [separatorsFrom, if_pos h]

theorem separatorsFrom_closing (h : isClosing c) (depth offset : Nat) :
    separatorsFrom separator depth none before offset (c :: rest) =
      separatorsFrom separator (depth - 1) none (some c) (offset + 1) rest := by
  simp only [separatorsFrom, isOpening_of_isClosing h, h, Bool.false_eq_true, if_false, if_true]

theorem separatorsFrom_quote (h : startsQuote before c) (hrest : rest.contains c)
    (depth offset : Nat) :
    separatorsFrom separator depth none before offset (c :: rest) =
      separatorsFrom separator depth (some c) (some c) (offset + 1) rest := by
  obtain ⟨hopen, hclose⟩ := isBracket_of_startsQuote h
  simp only [separatorsFrom, hopen, hclose, h, hrest, Bool.false_eq_true, if_false, if_true]

theorem separatorsFrom_content {content more : List Char} (h : c ∉ content) (depth offset : Nat) :
    separatorsFrom separator depth (some c) before offset (content ++ c :: more) =
      separatorsFrom separator depth none (some c) (offset + (content.length + 1)) more := by
  induction content generalizing before offset with
  | nil => simp [separatorsFrom]
  | cons d content ih =>
    rw [List.mem_cons, not_or] at h
    rw [List.cons_append, separatorsFrom, if_neg (Ne.symm h.1), ih h.2, List.length_cons,
      Nat.add_assoc, Nat.add_comm 1]

theorem separatorsFrom_plain (h : IsPlain before c) {depth : Nat} (hdepth : c ≠ separator ∨ 0 < depth)
    (offset : Nat) :
    separatorsFrom separator depth none before offset (c :: rest) =
      separatorsFrom separator depth none (some c) (offset + 1) rest := by
  have hsep : (c = separator && depth == 0) = false := by
    rcases hdepth with hne | hpos
    · simp [hne]
    · simp [Nat.ne_of_gt hpos]
  simp only [separatorsFrom, h.opening, h.closing, h.quote, hsep, Bool.false_and,
    Bool.false_eq_true, if_false]

/-- After `n` characters the scan of a closed text goes on with other open brackets, and no separator
is at the top level before. -/
structure Skips (separator : Char) (stack : List Char) (quote before : Option Char)
    (text : List Char) (stack' : List Char) (before' : Option Char) (n : Nat) : Prop where
  closed : Closed stack' none before' (text.drop n)
  separators : ∀ offset, separatorsFrom separator stack.length quote before offset text =
    separatorsFrom separator stack'.length none before' (offset + n) (text.drop n)

namespace Skips

variable {stack' : List Char} {before' : Option Char} {n : Nat}

theorem refl (h : Closed stack none before text) :
    Skips separator stack none before text stack before 0 :=
  ⟨h, fun _ => rfl⟩

theorem cons {stack₁ : List Char} {quote₁ : Option Char}
    (h : Skips separator stack₁ quote₁ (some c) rest stack' before' n)
    (hc : ∀ offset, separatorsFrom separator stack.length quote before offset (c :: rest) =
      separatorsFrom separator stack₁.length quote₁ (some c) (offset + 1) rest) :
    Skips separator stack quote before (c :: rest) stack' before' (n + 1) :=
  ⟨h.closed, fun offset => by
    rw [hc, h.separators, List.drop_succ_cons, Nat.add_assoc, Nat.add_comm 1]⟩

theorem trans {stack'' : List Char} {before'' : Option Char} {m : Nat}
    (h : Skips separator stack quote before text stack' before' n)
    (h' : Skips separator stack' none before' (text.drop n) stack'' before'' m) :
    Skips separator stack quote before text stack'' before'' (n + m) := by
  have hdrop : (text.drop n).drop m = text.drop (n + m) := List.drop_drop ..
  exact ⟨hdrop ▸ h'.closed, fun offset => by
    rw [h.separators, h'.separators, hdrop, Nat.add_assoc]⟩

end Skips

theorem getLast?_cons_or : (c :: text).getLast?.or before = text.getLast?.or (some c) := by
  rw [List.getLast?_cons]
  cases text.getLast? <;> rfl

/-- Characters that neither open nor close anything are passed. -/
theorem Closed.skips_plain {chars more : List Char} (h : Closed stack none before (chars ++ more))
    (hplain : ∀ c ∈ chars, ∀ before, IsPlain before c) (hseparator : separator ∉ chars) :
    Skips separator stack none before (chars ++ more) stack (chars.getLast?.or before)
      chars.length := by
  induction chars generalizing before with
  | nil => exact .refl h
  | cons c chars ih =>
    obtain ⟨hc, hrest⟩ := List.forall_mem_cons.mp hplain
    simp only [List.mem_cons, not_or] at hseparator
    have hskips := ih (h.of_isPlain (hc before)) hrest hseparator.2
    rw [getLast?_cons_or]
    exact hskips.cons (separatorsFrom_plain (hc before) (.inl (Ne.symm hseparator.1)))

theorem Closed.plain_append {chars more : List Char}
    (h : Closed stack none (chars.getLast?.or before) more)
    (hplain : ∀ c ∈ chars, ∀ before, IsPlain before c) :
    Closed stack none before (chars ++ more) := by
  induction chars generalizing before with
  | nil => exact h
  | cons c chars ih =>
    obtain ⟨hc, hrest⟩ := List.forall_mem_cons.mp hplain
    exact .plain (hc before) (ih (getLast?_cons_or ▸ h) hrest)

/-- A quoted text ends at its quote, whatever it holds. -/
theorem Closed.of_quoted {q : Char} {content more : List Char} (h : q ∉ content)
    (hmore : Closed stack none (some q) more) :
    Closed stack (some q) before (content ++ q :: more) := by
  induction content generalizing before with
  | nil =>
    refine .quoted ?_
    rw [if_pos rfl]
    exact hmore
  | cons c rest ih =>
    rw [List.mem_cons, not_or] at h
    refine .quoted ?_
    rw [if_neg (Ne.symm h.1)]
    exact ih h.2

theorem Closed.after_content {q : Char} {content more : List Char}
    (h : Closed stack (some q) before (content ++ q :: more)) (hcontent : q ∉ content) :
    Closed stack none (some q) more := by
  induction content generalizing before with
  | nil =>
    cases h with
    | quoted h => rwa [if_pos rfl] at h
  | cons c content ih =>
    rw [List.mem_cons, not_or] at hcontent
    cases h with
    | quoted h =>
      rw [if_neg (Ne.symm hcontent.1)] at h
      exact ih h hcontent.2

/-! ## Square brackets -/

/-- How many of the open brackets the scan for the end of square brackets counts. -/
def counted (stack : List Char) : Nat := stack.countP fun c => c == '[' || c == '{'

theorem closingBracket?_quote {before : Char} (h : startsQuote (some before) c)
    (hrest : rest.contains c) (depth : Nat) :
    Token.closingBracket? depth none before (c :: rest) =
      (Token.closingBracket? depth (some c) c rest).map (· + 1) := by
  obtain ⟨hopen, hclose⟩ := isBracket_of_startsQuote h
  have hopen' : ¬ (c = '[' ∨ c = '{') :=
    not_or.mpr ⟨ne_of_isOpening hopen rfl, ne_of_isOpening hopen rfl⟩
  have hclose' : ¬ (c = ']' ∨ c = '}') :=
    not_or.mpr ⟨ne_of_isClosing hclose rfl, ne_of_isClosing hclose rfl⟩
  simp only [Token.closingBracket?, hopen', hclose', h, hrest, Bool.and_self, if_false, if_true]

theorem closingBracket?_plain {before : Char} (h : IsPlain (some before) c) (depth : Nat) :
    Token.closingBracket? depth none before (c :: rest) =
      (Token.closingBracket? depth none c rest).map (· + 1) := by
  have hopen : ¬ (c = '[' ∨ c = '{') :=
    not_or.mpr ⟨ne_of_isOpening h.opening rfl, ne_of_isOpening h.opening rfl⟩
  have hclose : ¬ (c = ']' ∨ c = '}') :=
    not_or.mpr ⟨ne_of_isClosing h.closing rfl, ne_of_isClosing h.closing rfl⟩
  simp only [Token.closingBracket?, hopen, hclose, h.quote, Bool.false_and, Bool.false_eq_true,
    if_false]

theorem closingBracket?_opening {before : Char} (h : isOpening c) (stack : List Char) :
    Token.closingBracket? (counted stack) none before (c :: rest) =
      (Token.closingBracket? (counted (c :: stack)) none c rest).map (· + 1) := by
  obtain rfl | rfl | rfl := eq_of_isOpening h <;>
    simp [Token.closingBracket?, counted, startsQuote, isQuote]

theorem closingBracket?_closing {before opening : Char} (heq : c = closer opening)
    (stack : List Char) :
    Token.closingBracket? (counted (opening :: stack)) none before (c :: rest) =
      (Token.closingBracket? (counted stack) none c rest).map (· + 1) := by
  subst heq
  by_cases hcounted : opening = '[' ∨ opening = '{'
  · obtain rfl | rfl := hcounted <;> simp [Token.closingBracket?, counted, closer]
  · have hcloser : closer opening = ')' := by
      unfold closer
      split <;> simp_all
    simp_all [Token.closingBracket?, counted, startsQuote, isQuote]

/-- Inside square brackets no separator is at the top level, and where the scan for their end stops
they end. -/
theorem Closed.skips_inside {inner outer : List Char} {before : Char} {n : Nat}
    (h : Closed (inner ++ '[' :: outer) quote (some before) text)
    (hn : Token.closingBracket? (counted inner) quote before text = some n) :
    Skips separator (inner ++ '[' :: outer) quote (some before) text outer (some ']') (n + 1) := by
  generalize hstack : inner ++ '[' :: outer = stack at h
  generalize hbefore : some before = before' at h
  induction h generalizing inner before n with
  | nil => simp at hstack
  | quoted h ih =>
    simp only [Token.closingBracket?] at hn
    obtain ⟨m, hm, rfl⟩ := Option.map_eq_some_iff.mp hn
    exact (ih hm hstack rfl).cons fun offset => by rw [separatorsFrom]
  | opening hopen h ih =>
    rw [closingBracket?_opening hopen] at hn
    obtain ⟨m, hm, rfl⟩ := Option.map_eq_some_iff.mp hn
    exact (ih hm (by rw [← hstack, List.cons_append]) rfl).cons (separatorsFrom_opening hopen _)
  | @closing stack b opening c rest hclose heq h ih =>
    cases inner with
    | nil =>
      -- The scan stops here: nothing inside the square brackets is open.
      cases hstack
      cases heq
      have hzero : n = 0 := by simpa [Token.closingBracket?, counted, closer] using hn.symm
      subst hzero
      exact (Skips.refl h).cons (separatorsFrom_closing hclose _)
    | cons opening' inner =>
      cases hstack
      rw [closingBracket?_closing heq] at hn
      obtain ⟨m, hm, rfl⟩ := Option.map_eq_some_iff.mp hn
      exact (ih hm rfl rfl).cons (separatorsFrom_closing hclose _)
  | quote hquote h ih =>
    subst hbefore
    rw [closingBracket?_quote hquote h.contains] at hn
    obtain ⟨m, hm, rfl⟩ := Option.map_eq_some_iff.mp hn
    exact (ih hm hstack rfl).cons (separatorsFrom_quote hquote h.contains _)
  | plain hplain h ih =>
    subst hbefore
    rw [closingBracket?_plain hplain] at hn
    obtain ⟨m, hm, rfl⟩ := Option.map_eq_some_iff.mp hn
    have hdepth : 0 < (inner ++ '[' :: outer).length := by
      rw [List.length_append, List.length_cons]
      omega
    exact (ih hm hstack rfl).cons (separatorsFrom_plain hplain (.inr (hstack ▸ hdepth)))

/-- A closed text in square brackets is what stands between them. -/
theorem Closed.closingBracket?_append {before : Char} (h : Closed stack quote (some before) text)
    (more : List Char) :
    Token.closingBracket? (counted stack) quote before (text ++ ']' :: more) = some text.length := by
  generalize hbefore : some before = before' at h
  induction h generalizing before with
  | nil => rfl
  | quoted h ih => simp [Token.closingBracket?, ih rfl]
  | opening hopen h ih => simp [closingBracket?_opening hopen, ih rfl]
  | closing hclose heq h ih => simp [closingBracket?_closing heq, ih rfl]
  | quote hquote h ih =>
    subst hbefore
    have hmore : (_ ++ ']' :: more).contains _ := List.contains_iff_mem.mpr
      (List.mem_append_left _ (List.contains_iff_mem.mp h.contains))
    simp [closingBracket?_quote hquote hmore, ih rfl]
  | plain hplain h ih =>
    subst hbefore
    simp [closingBracket?_plain hplain, ih rfl]

theorem Closed.append_of {outer more : List Char} (h : Closed stack quote before text)
    (hmore : ∀ before, Closed outer none before more) :
    Closed (stack ++ outer) quote before (text ++ more) := by
  induction h with
  | nil => exact hmore _
  | quoted h ih => exact .quoted ih
  | opening hopen h ih => exact .opening hopen ih
  | closing hclose heq h ih => exact .closing hclose heq ih
  | quote hquote h ih => exact .quote hquote ih
  | plain hplain h ih => exact .plain hplain ih

end

end QualityScript
