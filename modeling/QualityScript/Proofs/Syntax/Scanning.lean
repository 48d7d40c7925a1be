import QualityScript.Proofs.Syntax.Lexemes

/-!
# Tokens and separators

Where the tokens of a closed text form a phrase, the scan for separators passes them one by one: it
is never inside a quoted text or inside square brackets at the start of a token, and its depth is the
number of parentheses that are open. The first semicolon among the tokens is therefore the first one
at the top level of the text.
-/

namespace QualityScript

open Text Lexer

variable {stack : List Char} {before : Option Char} {c q : Char} {chars more rest text : List Char}
  {t : Token} {n : Nat}

theorem IsInert.isPlain (h : IsInert c) (before : Option Char) : IsPlain before c :=
  ⟨h.opening, h.closing, by simp [startsQuote, h.quote]⟩

theorem isPlain_of_isBlank (h : isBlank c) (before : Option Char) : IsPlain before c where
  opening := by
    cases hc : isOpening c with
    | false => rfl
    | true => obtain rfl | rfl | rfl := eq_of_isOpening hc <;> cases h
  closing := by
    cases hc : isClosing c with
    | false => rfl
    | true => obtain rfl | rfl | rfl := eq_of_isClosing hc <;> cases h
  quote := by
    cases hc : isQuote c with
    | false => simp [startsQuote, hc]
    | true =>
      simp only [isQuote, Bool.or_eq_true, beq_iff_eq] at hc
      obtain rfl | rfl := hc <;> cases h

theorem skips_plain (h : Closed stack none before (c :: rest)) (hc : IsPlain before c)
    (hne : c ≠ ';') : Skips ';' stack none before (c :: rest) stack (some c) 1 :=
  (Skips.refl (h.of_isPlain hc)).cons (separatorsFrom_plain hc (.inl hne))

theorem skips_run (h : Closed stack none before (chars ++ more)) (hchars : ∀ c ∈ chars, IsInert c) :
    Skips ';' stack none before (chars ++ more) stack (chars.getLast?.or before) chars.length :=
  h.skips_plain (fun c hc => (hchars c hc).isPlain) fun hmem => (hchars ';' hmem).semicolon rfl

theorem skips_content {separator : Char} {content : List Char}
    (h : Closed stack (some q) before (content ++ q :: more)) (hq : q ∉ content) :
    Skips separator stack (some q) before (content ++ q :: more) stack (some q)
      (content.length + 1) := by
  have hdrop : (content ++ q :: more).drop (content.length + 1) = more := by
    rw [List.drop_length_add_append, List.drop_succ_cons, List.drop_zero]
  refine ⟨?_, fun offset => ?_⟩
  · rw [hdrop]
    exact h.after_content hq
  · rw [hdrop, separatorsFrom_content hq]

theorem skips_quoted {separator : Char} {content : List Char}
    (h : Closed stack none before (q :: (content ++ q :: more))) (hquote : isQuote q)
    (hbefore : opensQuote before) (hq : q ∉ content) :
    Skips separator stack none before (q :: (content ++ q :: more)) stack (some q)
      (content.length + 2) := by
  have hstart : startsQuote before q := by simp [startsQuote, hquote, hbefore]
  have hin := h.of_startsQuote hstart
  exact (skips_content hin hq).cons (separatorsFrom_quote hstart hin.contains _)

theorem skips_bracketed {inside : List Char}
    (h : Closed stack none before ('[' :: (inside ++ ']' :: more)))
    (hinside : Token.closingBracket? 0 none '[' (inside ++ ']' :: more) = some inside.length) :
    Skips ';' stack none before ('[' :: (inside ++ ']' :: more)) stack (some ']')
      (inside.length + 2) := by
  have hopen : isOpening '[' := rfl
  have hin : Closed ([] ++ '[' :: stack) none (some '[') (inside ++ ']' :: more) :=
    h.of_isOpening hopen
  exact (hin.skips_inside hinside).cons (separatorsFrom_opening hopen _)

/-- After a token the scan is at a place where a quoted text begins, unless the token ends in a word. -/
structure Passes (stack : List Char) (before : Option Char) (t : Token) (chars more : List Char)
    (stack' : List Char) (before' : Option Char) : Prop where
  skips : Skips ';' stack none before (chars ++ more) stack' before' chars.length
  opens : t.endsInWord = false → opensQuote before'

theorem opensQuote_getLast? (hne : chars ≠ []) (h : ∀ c ∈ chars, isAlphanumeric c = false)
    (before : Option Char) : opensQuote (chars.getLast?.or before) := by
  cases hlast : chars.getLast? with
  | none => exact absurd (List.getLast?_eq_none_iff.mp hlast) hne
  | some c => simp [opensQuote, h c (List.mem_of_getLast? hlast)]

/-- A token that is neither a parenthesis nor a semicolon leaves the open brackets as they are. -/
theorem Lexeme.passes (h : Lexeme more t chars) (hclosed : Closed stack none before (chars ++ more))
    (hbefore : t.isQuoted → opensQuote before) (hopen : t.isOpen = false)
    (hclose : t.isClose = false) (hsemicolon : Grammar.isSemicolon t = false) :
    ∃ before', Passes stack before t chars more stack before' := by
  cases h with
  | @quoted s q content hquote hq =>
    rw [List.cons_append, List.append_assoc] at hclosed
    refine ⟨some q, ?_, fun _ => ?_⟩
    · have hskips : Skips ';' stack none before (q :: (content ++ q :: more)) stack (some q)
          (content.length + 2) := skips_quoted hclosed hquote (hbefore rfl) hq
      simpa using hskips
    · simp only [isQuote, Bool.or_eq_true, beq_iff_eq] at hquote
      obtain rfl | rfl := hquote <;> rfl
  | run ht hne hinert hsymbols =>
    exact ⟨_, skips_run hclosed hinert,
      fun hword => opensQuote_getLast? hne (hsymbols hword) before⟩
  | @bracketed t passed inside ht hinert hinside =>
    have heq : passed ++ '[' :: (inside ++ [']']) ++ more =
        passed ++ '[' :: (inside ++ ']' :: more) := by simp
    have hlength : (passed ++ '[' :: (inside ++ [']'])).length =
        passed.length + (inside.length + 2) := by simp
    rw [heq] at hclosed
    have hrun := skips_run hclosed hinert
    have hafter := hrun.closed
    rw [List.drop_left] at hafter
    refine ⟨some ']', ?_, fun _ => by decide⟩
    rw [heq, hlength]
    exact hrun.trans (by rw [List.drop_left]; exact skips_bracketed hafter hinside)
  | openParen => cases hopen
  | closeParen => cases hclose
  | semicolon => cases hsemicolon

/-- Open parentheses and nothing else. -/
abbrev parens (k : Nat) : List Char := List.replicate k '('

/-- Between tokens only parentheses are open; their number changes as the tokens tell. -/
theorem Lexeme.exists_passes {k : Nat} (h : Lexeme more t chars)
    (hclosed : Closed (parens k) none before (chars ++ more))
    (hbefore : t.isQuoted → opensQuote before) (hsemicolon : Grammar.isSemicolon t = false) :
    ∃ k' before', Passes (parens k) before t chars more (parens k') before' ∧
      k' + [t].countP (·.isClose) = k + [t].countP (·.isOpen) := by
  cases hopen : t.isOpen with
  | true =>
    cases t <;> cases hopen
    cases h with
    | run ht => cases ht
    | bracketed ht => cases ht
    | openParen =>
      have hin : Closed (parens (k + 1)) none (some '(') more := hclosed.of_isOpening rfl
      have hskips : Skips ';' (parens k) none before ('(' :: more) (parens (k + 1)) (some '(') 1 :=
        (Skips.refl hin).cons fun offset => by
          simpa using separatorsFrom_opening rfl k offset
      exact ⟨k + 1, some '(', ⟨hskips, fun _ => by decide⟩, rfl⟩
  | false =>
    cases hclose : t.isClose with
    | false =>
      obtain ⟨before', hpasses⟩ := h.passes hclosed hbefore hopen hclose hsemicolon
      exact ⟨k, before', hpasses, by simp [hopen, hclose]⟩
    | true =>
      cases t <;> cases hclose
      cases h with
      | run ht => cases ht
      | bracketed ht => cases ht
      | closeParen =>
        obtain ⟨opening, stack, hstack, hout⟩ := hclosed.of_isClosing rfl
        cases k with
        | zero => cases hstack
        | succ k =>
          cases hstack
          have hskips : Skips ';' (parens (k + 1)) none before (')' :: more) (parens k)
              (some ')') 1 :=
            (Skips.refl hout).cons fun offset => by
              simpa using separatorsFrom_closing rfl (k + 1) offset
          exact ⟨k, some ')', ⟨hskips, fun _ => by decide⟩, rfl⟩

/-! ## Scanning all tokens -/

/-- No quoted text stands first where one cannot begin, nor directly after a word. -/
structure InOrder (before : Option Char) (ts : List Token) : Prop where
  first : ∀ t ∈ ts.head?, t.isQuoted → opensQuote before
  chain : ts.IsChain Token.MayPrecede

theorem InOrder.tail {ts : List Token} {before' : Option Char} (h : InOrder before (t :: ts))
    (hopens : t.endsInWord = false → opensQuote before') : InOrder before' ts where
  first t' ht' hquoted := by
    cases hword : t.endsInWord with
    | false => exact hopens hword
    | true =>
      have hnot := h.chain.rel_head? ht' hword
      simp [hnot] at hquoted
  chain := h.chain.tail

theorem InOrder.of_blank {ts : List Token} (h : InOrder before ts) (hc : isBlank c) :
    InOrder (some c) ts where
  first t ht _ := by
    have halpha : isAlphanumeric c = false := by
      have := isIdentChar_of_isBlank hc
      simp only [isIdentChar, Bool.or_eq_false_iff] at this
      exact this.1
    simp [opensQuote, halpha]
  chain := h.chain

theorem isSemicolon_iff : Grammar.isSemicolon t ↔ t = .semicolon := by
  cases t <;> simp [Grammar.isSemicolon]

theorem Lexeme.eq_of_semicolon (h : Lexeme more .semicolon chars) : chars = [';'] := by
  cases h with
  | run ht => cases ht
  | bracketed ht => cases ht
  | semicolon => rfl

theorem ne_semicolon_of_isBlank (h : isBlank c) : c ≠ ';' := by
  rintro rfl
  cases h

/-- Without a semicolon among the tokens there is none at the top level. -/
theorem separatorsFrom_of_tokens {readCall : CallReader} {ts : List Token} {k : Nat}
    (h : tokens readCall text = .ok ts) (hclosed : Closed (parens k) none before text)
    (hts : ∀ t ∈ ts, Grammar.isSemicolon t = false) (horder : InOrder before ts) (offset : Nat) :
    separatorsFrom ';' (parens k).length none before offset text = [] := by
  fun_induction tokens readCall text generalizing ts k before offset with
  | case1 => rfl
  | case2 c rest hblank ih =>
    have hskips := skips_plain hclosed (isPlain_of_isBlank hblank before)
      (ne_semicolon_of_isBlank hblank)
    rw [hskips.separators]
    exact ih h hskips.closed hts (horder.of_blank hblank) _
  | case3 => cases h
  | case4 c rest hblank t n htake ih =>
    obtain ⟨ts, hrest, rfl⟩ := exists_of_map_eq_ok h
    obtain ⟨taken, more, rfl, rfl, hlexeme⟩ := takes_takeToken htake
    obtain ⟨ht, hts⟩ := List.forall_mem_cons.mp hts
    obtain ⟨k', before', hpasses, -⟩ :=
      hlexeme.exists_passes hclosed (horder.first t rfl) ht
    have hseparators := hpasses.skips.separators offset
    have hmore := hpasses.skips.closed
    rw [List.drop_left] at hseparators hmore hrest
    rw [← List.cons_append, hseparators]
    rw [List.drop_left] at ih
    exact ih hrest hmore hts (horder.tail hpasses.opens) _

/-- The first semicolon among the tokens is the first one at the top level, and the text before it has
the tokens before it. -/
theorem exists_of_semicolon {readCall : CallReader} {ts head params : List Token} {k : Nat}
    (h : tokens readCall text = .ok ts) (hts : ts = head ++ .semicolon :: params)
    (hclosed : Closed (parens k) none before text)
    (hhead : ∀ t ∈ head, Grammar.isSemicolon t = false) (horder : InOrder before head)
    (hbalanced : k + head.countP (·.isOpen) = head.countP (·.isClose)) :
    ∃ a b, text = a ++ ';' :: b ∧ tokens readCall a = .ok head ∧
      ∀ offset, (separatorsFrom ';' (parens k).length none before offset text).head? =
        some (offset + a.length) := by
  fun_induction tokens readCall text generalizing ts head k before with
  | case1 =>
    cases h
    simp at hts
  | case2 c rest hblank ih =>
    have hskips := skips_plain hclosed (isPlain_of_isBlank hblank before)
      (ne_semicolon_of_isBlank hblank)
    obtain ⟨a, b, rfl, ha, hseparators⟩ :=
      ih h hts hskips.closed hhead (horder.of_blank hblank) hbalanced
    refine ⟨c :: a, b, rfl, ?_, fun offset => ?_⟩
    · rw [tokens, if_pos hblank, ha]
    · rw [hskips.separators]
      simp only [List.drop_succ_cons, List.drop_zero, hseparators, List.length_cons]
      congr 1
      omega
  | case3 => cases h
  | case4 c rest hblank t n htake ih =>
    obtain ⟨ts, hrest, rfl⟩ := exists_of_map_eq_ok h
    obtain ⟨taken, more, rfl, rfl, hlexeme⟩ := takes_takeToken htake
    rw [List.drop_left] at hrest ih
    cases head with
    | nil =>
      -- The token is the semicolon, and no parenthesis is open.
      cases hts
      have hk : k = 0 := by simpa using hbalanced
      subst hk
      cases hlexeme.eq_of_semicolon
      exact ⟨[], more, rfl, by rw [tokens], fun offset => by
        simp [separatorsFrom, isOpening, isClosing, startsQuote, isQuote, isDoubledBar]⟩
    | cons t' head =>
      cases hts
      obtain ⟨ht, hhead⟩ := List.forall_mem_cons.mp hhead
      obtain ⟨k', before', hpasses, hcount⟩ :=
        hlexeme.exists_passes hclosed (horder.first t rfl) ht
      have hmore := hpasses.skips.closed
      rw [List.drop_left] at hmore
      have hbalanced' : k' + head.countP (·.isOpen) = head.countP (·.isClose) := by
        simp only [List.countP_cons, List.countP_nil] at hbalanced hcount
        omega
      obtain ⟨a, b, rfl, ha, hseparators⟩ :=
        ih hrest rfl hmore hhead (horder.tail hpasses.opens) hbalanced'
      have htake' : takeToken readCall c (taken ++ a) = .ok (t, taken.length) := by
        refine Stops.takeToken_of_append (.semicolon b) ?_ (by simp)
        rwa [List.append_assoc]
      refine ⟨c :: (taken ++ a), b, by simp, ?_, fun offset => ?_⟩
      · rw [tokens, if_neg hblank, htake']
        simp only [List.drop_left, ha]
        rfl
      · rw [← List.cons_append, hpasses.skips.separators, List.drop_left, hseparators]
        simp only [List.length_cons, List.length_append]
        congr 1
        omega

/-! ## Blanks at the ends -/

theorem Lexeme.isBlank_getLast? (h : Lexeme more t chars) : ∀ d ∈ chars.getLast?, isBlank d = false := by
  intro d hd
  cases h with
  | @quoted s q content hquote _ =>
    have : d = q := by simpa [List.getLast?_cons, eq_comm] using hd
    subst this
    simp only [isQuote, Bool.or_eq_true, beq_iff_eq] at hquote
    obtain rfl | rfl := hquote <;> rfl
  | run _ _ hinert _ => exact (hinert d (List.mem_of_getLast? hd)).blank
  | @bracketed t passed inside _ _ _ =>
    have : d = ']' := by simpa [List.getLast?_append, List.getLast?_cons, eq_comm] using hd
    subst this
    rfl
  | openParen | closeParen | semicolon =>
    cases hd
    rfl

theorem length_le_of_lexeme {taken p s : List Char} (h : Lexeme more t (c :: taken))
    (htext : p ++ s = taken ++ more) (hs : ∀ d ∈ s, isBlank d) : taken.length ≤ p.length := by
  by_contra hlong
  obtain ⟨s', rfl⟩ : ∃ s', taken = p ++ s' := by
    have hprefix : p <+: taken :=
      List.prefix_of_prefix_length_le ⟨s, htext⟩ (List.prefix_append taken more) (by omega)
    obtain ⟨s', hs'⟩ := hprefix
    exact ⟨s', hs'.symm⟩
  rw [List.append_assoc] at htext
  obtain rfl := List.append_cancel_left htext
  have hne : s' ≠ [] := by
    rintro rfl
    simp at hlong
  have hlast := h.isBlank_getLast? (s'.getLast hne) (by
    simp [List.getLast?_cons, List.getLast?_append, List.getLast?_eq_some_getLast hne])
  have hblank := hs (s'.getLast hne) (List.mem_append_left _ (List.getLast_mem hne))
  simp [hlast] at hblank

theorem tokens_of_append_blanks {readCall : CallReader} {ts : List Token} {p s : List Char}
    (h : tokens readCall (p ++ s) = .ok ts) (hs : ∀ d ∈ s, isBlank d) :
    tokens readCall p = .ok ts := by
  generalize htext : p ++ s = text at h
  fun_induction tokens readCall text generalizing p s ts with
  | case1 =>
    obtain ⟨rfl, rfl⟩ := List.append_eq_nil_iff.mp htext
    rw [tokens, h]
  | case2 c rest hblank ih =>
    rcases p with _ | ⟨c', p⟩
    · rw [List.nil_append] at htext
      subst htext
      have htail : ∀ d ∈ rest, isBlank d := fun d hd => hs d (.tail _ hd)
      exact ih htail (List.nil_append rest) h
    · cases htext
      rw [tokens, if_pos hblank]
      exact ih hs rfl h
  | case3 => cases h
  | case4 c rest hblank t n htake ih =>
    obtain ⟨ts, hrest, rfl⟩ := exists_of_map_eq_ok h
    rcases p with _ | ⟨c', p⟩
    · rw [List.nil_append] at htext
      exact absurd (hs c (by rw [htext]; exact .head _)) hblank
    · cases htext
      obtain ⟨taken, more, heq, rfl, hlexeme⟩ := takes_takeToken htake
      have hlength := length_le_of_lexeme hlexeme heq hs
      have hdrop : (p ++ s).drop taken.length = p.drop taken.length ++ s :=
        List.drop_append_of_le_length hlength
      have htokens := ih hs hdrop.symm hrest
      rw [tokens, if_neg hblank, Stops.takeToken_of_append (.of_isBlank hs) htake hlength]
      simp only [htokens]
      rfl

theorem tokens_trimStart (readCall : CallReader) (text : List Char) :
    tokens readCall (trimStart text) = tokens readCall text := by
  induction text with
  | nil => rfl
  | cons c rest ih =>
    cases hc : isBlank c with
    | false => simp [trimStart, hc]
    | true =>
      rw [tokens, if_pos hc, ← ih]
      simp [trimStart, hc]

theorem tokens_trim {readCall : CallReader} {ts : List Token} (h : tokens readCall text = .ok ts) :
    tokens readCall (trim text) = .ok ts := by
  rw [← tokens_trimStart] at h
  unfold trim
  generalize trimStart text = start at h ⊢
  have hsplit : trimEnd start ++ (start.reverse.takeWhile isBlank).reverse = start := by
    rw [trimEnd, ← List.reverse_append, List.takeWhile_append_dropWhile, List.reverse_reverse]
  rw [← hsplit] at h
  refine tokens_of_append_blanks h fun d hd => ?_
  exact List.all_eq_true.mp List.all_takeWhile d (List.mem_reverse.mp hd)

end QualityScript
