import QualityScript.Proofs.Syntax.Closing
import QualityScript.Template
import QualityScript.Block

/-!
# Braces around closed texts

In braces a closed text is one block. A closed text without a block is plain text as a whole, with no
brace that has no partner: its braces all stand in quoted texts.
-/

namespace QualityScript

open Text

variable {stack : List Char} {quote before : Option Char} {b c q : Char} {rest text : List Char}

theorem closingBrace?_opening (h : isOpening c) (stack rest : List Char) :
    closingBrace? true (stack.count '{') none b (c :: rest) =
      (closingBrace? true ((c :: stack).count '{') none c rest).map (· + 1) := by
  obtain rfl | rfl | rfl := eq_of_isOpening h <;> simp [closingBrace?, startsQuote, isQuote]

theorem closingBrace?_closing {opening : Char} (heq : c = closer opening) (stack rest : List Char) :
    closingBrace? true ((opening :: stack).count '{') none b (c :: rest) =
      (closingBrace? true (stack.count '{') none c rest).map (· + 1) := by
  subst heq
  by_cases hbrace : opening = '{'
  · subst hbrace
    simp [closingBrace?, closer]
  · have hcloser : closer opening = ']' ∨ closer opening = ')' := by
      unfold closer
      split <;> simp_all
    rw [List.count_cons_of_ne hbrace]
    obtain h | h := hcloser <;> simp [h, closingBrace?, startsQuote, isQuote]

theorem closingBrace?_quote (h : startsQuote (some b) c) (depth : Nat) (rest : List Char) :
    closingBrace? true depth none b (c :: rest) =
      (closingBrace? true depth (some c) c rest).map (· + 1) := by
  obtain ⟨hopen, hclose⟩ := isBracket_of_startsQuote h
  have hopen' : c ≠ '{' := ne_of_isOpening hopen rfl
  have hclose' : c ≠ '}' := ne_of_isClosing hclose rfl
  simp only [closingBrace?, hopen', hclose', h, Bool.and_self, if_false, if_true]

theorem closingBrace?_plain (h : IsPlain (some b) c) (depth : Nat) (rest : List Char) :
    closingBrace? true depth none b (c :: rest) =
      (closingBrace? true depth none c rest).map (· + 1) := by
  have hopen : c ≠ '{' := ne_of_isOpening h.opening rfl
  have hclose : c ≠ '}' := ne_of_isClosing h.closing rfl
  simp only [closingBrace?, hopen, hclose, h.quote, Bool.and_false, Bool.false_eq_true, if_false]

/-- A closed text in braces is what stands between them. -/
theorem Closed.closingBrace?_append (h : Closed stack quote (some b) text) (more : List Char) :
    closingBrace? true (stack.count '{') quote b (text ++ '}' :: more) = some text.length := by
  generalize hbefore : some b = before at h
  induction h generalizing b with
  | nil => rfl
  | quoted h ih => simp [closingBrace?, ih rfl]
  | opening hopen h ih => simp [closingBrace?_opening hopen, ih rfl]
  | closing hclose heq h ih => simp [closingBrace?_closing heq, ih rfl]
  | quote hquote h ih =>
    subst hbefore
    simp [closingBrace?_quote hquote, ih rfl]
  | plain hplain h ih =>
    subst hbefore
    simp [closingBrace?_plain hplain, ih rfl]

theorem Closed.exists_closingBrace? {inner outer : List Char}
    (h : Closed (inner ++ '{' :: outer) quote (some b) text) :
    ∃ n, closingBrace? true (inner.count '{') quote b text = some n := by
  generalize hstack : inner ++ '{' :: outer = stack at h
  generalize hbefore : some b = before at h
  induction h generalizing inner b with
  | nil => simp at hstack
  | quoted h ih =>
    obtain ⟨n, hn⟩ := ih hstack rfl
    exact ⟨n + 1, by simp [closingBrace?, hn]⟩
  | opening hopen h ih =>
    obtain ⟨n, hn⟩ := ih (by rw [← hstack, List.cons_append]) rfl
    exact ⟨n + 1, by simp [closingBrace?_opening hopen, hn]⟩
  | closing hclose heq h ih =>
    cases inner with
    | nil =>
      cases hstack
      subst heq
      exact ⟨0, rfl⟩
    | cons opening' inner =>
      cases hstack
      obtain ⟨n, hn⟩ := ih rfl rfl
      exact ⟨n + 1, by simp [closingBrace?_closing heq, hn]⟩
  | quote hquote h ih =>
    subst hbefore
    obtain ⟨n, hn⟩ := ih hstack rfl
    exact ⟨n + 1, by simp [closingBrace?_quote hquote, hn]⟩
  | plain hplain h ih =>
    subst hbefore
    obtain ⟨n, hn⟩ := ih hstack rfl
    exact ⟨n + 1, by simp [closingBrace?_plain hplain, hn]⟩

/-! ## Texts without blocks -/

theorem Closed.drop_quoteLength? {n : Nat} (h : Closed stack (some q) before text)
    (hn : quoteLength? q text = some n) : Closed stack none (some q) (text.drop (n + 1)) := by
  obtain ⟨content, more, rfl, rfl, hcontent⟩ := eq_of_quoteLength? hn
  rw [List.drop_length_add_append, List.drop_succ_cons, List.drop_zero]
  exact h.after_content hcontent

/-- Where no block is found in a closed text, the scan goes through it and reports nothing. -/
theorem Closed.scanFrom_of_blocks {offset : Nat} {collected : List Char}
    (h : Closed stack none before text) (hstack : '{' ∉ stack)
    (hblocks : Template.blocks (scanFrom true offset before collected text).1 = []) :
    scanFrom true offset before collected text = (literalPart (text.reverse ++ collected), []) := by
  fun_induction scanFrom true offset before collected text generalizing stack with
  | case1 => rfl
  | case2 => exact absurd hblocks (by simp [Template.blocks])
  | case3 offset before collected rest hnone =>
    -- The brace has a partner, so a block would have been found.
    cases h with
    | opening hopen h =>
      have hopened : Closed ([] ++ '{' :: stack) none (some '{') rest := h
      obtain ⟨n, hn⟩ := hopened.exists_closingBrace?
      rw [List.count_nil] at hn
      simp [blockLength?, hn] at hnone
    | closing hclose => cases hclose
    | quote hquote => cases hquote
    | plain hplain => cases hplain.opening
  | case4 offset before collected c rest hbrace n hn hlt ih =>
    split at hn
    · next hquote =>
      rw [ih ((h.of_startsQuote hquote).drop_quoteLength? hn) hstack hblocks]
      have htext : (c :: rest).reverse =
          (rest.drop (n + 1)).reverse ++ (c :: rest.take (n + 1)).reverse := by
        rw [← List.reverse_append, List.cons_append, List.take_append_drop]
      rw [htext, List.append_assoc]
    · cases hn
  | case5 offset before collected c rest hbrace hn segments errors hscan ih =>
    -- A closing brace would need an open one.
    have hgo {stack' : List Char} (h : Closed stack' none (some c) rest) (hstack : '{' ∉ stack')
        (hc : c ≠ '}') : (segments, if c = '}' then .unmatchedClose offset :: errors else errors) =
          (literalPart ((c :: rest).reverse ++ collected), []) := by
      have hrest := ih h hstack (by rw [hscan]; exact hblocks)
      rw [hscan] at hrest
      rw [if_neg hc, hrest, List.reverse_cons, List.append_assoc, List.singleton_append]
    cases h with
    | opening hopen h =>
      refine hgo h (by simp [Ne.symm hbrace, hstack]) ?_
      rintro rfl
      cases hopen
    | @closing stack _ opening _ _ hclose heq h =>
      simp only [List.mem_cons, not_or] at hstack
      refine hgo h hstack.2 ?_
      rintro rfl
      unfold closer at heq
      split at heq
      · exact hstack.1 rfl
      · cases heq
      · cases heq
    | quote hquote h =>
      have hsome := quoteLength?_isSome c rest
      rw [h.contains] at hsome
      simp only [Bool.true_and, hquote, dif_pos] at hn
      simp [hn] at hsome
    | plain hplain h => exact hgo h hstack (ne_of_isClosing hplain.closing rfl)

theorem scan_of_isClosed {text : String} (h : IsClosed text.toList)
    (hblocks : (scan true text).1.blocks = []) :
    scan true text = (literalPart text.toList.reverse, []) := by
  simpa [scan] using h.closed.scanFrom_of_blocks List.not_mem_nil hblocks

/-! ## Plain parts -/

theorem scanFrom_of_blocks {quotesKept : Bool} {offset : Nat} {collected : List Char}
    (h : Template.blocks (scanFrom quotesKept offset before collected text).1 = []) :
    (scanFrom quotesKept offset before collected text).1 =
      literalPart (text.reverse ++ collected) := by
  fun_induction scanFrom quotesKept offset before collected text with
  | case1 | case3 => rfl
  | case2 => exact absurd h (by simp [Template.blocks])
  | case4 offset before collected c rest hbrace n hn hlt ih =>
    have htext : (c :: rest).reverse =
        (rest.drop (n + 1)).reverse ++ (c :: rest.take (n + 1)).reverse := by
      rw [← List.reverse_append, List.cons_append, List.take_append_drop]
    rw [ih h, htext, List.append_assoc]
  | case5 offset before collected c rest hbrace hn segments errors hscan ih =>
    rw [hscan] at ih
    rw [List.reverse_cons, List.append_assoc, List.singleton_append]
    exact ih h

theorem not_mem_of_mem_literalPart {collected : List Char} (h : '{' ∉ collected) {s : String}
    (hs : .literal s ∈ literalPart collected) : '{' ∉ s.toList := by
  unfold literalPart at hs
  split at hs
  · cases hs
  · cases List.mem_singleton.mp hs
    simpa using h

/-- Between the blocks of a text whose braces all pair there is no opening brace. -/
theorem not_mem_of_mem_scanFrom {offset : Nat} {collected : List Char} (hcollected : '{' ∉ collected)
    (herrors : (scanFrom false offset before collected text).2 = []) {s : String}
    (hs : .literal s ∈ (scanFrom false offset before collected text).1) : '{' ∉ s.toList := by
  fun_induction scanFrom false offset before collected text with
  | case1 => exact not_mem_of_mem_literalPart hcollected hs
  | case2 offset before collected rest n hlength hlt segments errors hscan ih =>
    rw [hscan] at ih
    rcases List.mem_append.mp hs with hs | hs
    · exact not_mem_of_mem_literalPart hcollected hs
    · rcases List.mem_cons.mp hs with hs | hs
      · cases hs
      · exact ih List.not_mem_nil herrors hs
  | case3 => cases herrors
  | case4 offset before collected c rest hbrace n hn hlt ih => cases hn
  | case5 offset before collected c rest hbrace hn segments errors hscan ih =>
    rw [hscan] at ih
    split at herrors
    · cases herrors
    · exact ih (by simpa [Ne.symm hbrace] using hcollected) herrors hs

/-! ## Texts without braces -/

theorem not_mem_of_hasBrace {text : String} (h : hasBrace text = false) : '{' ∉ text.toList := by
  simpa [hasBrace] using h

theorem scanFrom_of_not_mem {quotesKept : Bool} {offset : Nat} {collected : List Char}
    (h : '{' ∉ text) :
    (scanFrom quotesKept offset before collected text).1 =
      literalPart (text.reverse ++ collected) := by
  fun_induction scanFrom quotesKept offset before collected text with
  | case1 => rfl
  | case2 | case3 => exact absurd (List.mem_cons_self ..) h
  | case4 offset before collected c rest hbrace n hn hlt ih =>
    have hrest : '{' ∉ rest.drop (n + 1) := fun hmem => h (.tail _ (List.mem_of_mem_drop hmem))
    have htext : (c :: rest).reverse =
        (rest.drop (n + 1)).reverse ++ (c :: rest.take (n + 1)).reverse := by
      rw [← List.reverse_append, List.cons_append, List.take_append_drop]
    rw [ih hrest, htext, List.append_assoc]
  | case5 offset before collected c rest hbrace hn segments errors hscan ih =>
    rw [hscan] at ih
    rw [List.reverse_cons, List.append_assoc, List.singleton_append]
    exact ih fun hmem => h (.tail _ hmem)

theorem errors_of_not_mem {quotesKept : Bool} {offset : Nat} {collected : List Char}
    (hopen : '{' ∉ text) (hclose : '}' ∉ text) :
    (scanFrom quotesKept offset before collected text).2 = [] := by
  fun_induction scanFrom quotesKept offset before collected text with
  | case1 => rfl
  | case2 | case3 => exact absurd (List.mem_cons_self ..) hopen
  | case4 offset before collected c rest hbrace n hn hlt ih =>
    exact ih (fun hmem => hopen (.tail _ (List.mem_of_mem_drop hmem)))
      fun hmem => hclose (.tail _ (List.mem_of_mem_drop hmem))
  | case5 offset before collected c rest hbrace hn segments errors hscan ih =>
    rw [hscan] at ih
    have hc : c ≠ '}' := by
      rintro rfl
      exact hclose (.head _)
    rw [if_neg hc]
    exact ih (fun hmem => hopen (.tail _ hmem)) fun hmem => hclose (.tail _ hmem)

theorem scan_block_append {content : String} (h : IsClosed content.toList) {more : String}
    (hopen : '{' ∉ more.toList) (hclose : '}' ∉ more.toList) (quotesKept : Bool) :
    scan quotesKept ("\x7b" ++ content ++ "\x7d" ++ more) =
      (.block content :: literalPart more.toList.reverse, []) := by
  have hclosing : closingBrace? true 0 none '{' (content.toList ++ '}' :: more.toList) =
      some content.toList.length :=
    (h.closed.of_before rfl : Closed [] none (some '{') _).closingBrace?_append more.toList
  have hlength : blockLength? (content.toList ++ '}' :: more.toList) =
      some content.toList.length := by
    simp [blockLength?, hclosing]
  have hchars : ("\x7b" ++ content ++ "\x7d" ++ more).toList =
      '{' :: (content.toList ++ '}' :: more.toList) := by
    simp
  have hrest : scanFrom quotesKept (0 + content.toList.length + 2) (some '}') [] more.toList =
      (literalPart more.toList.reverse, []) := by
    apply Prod.ext
    · rw [scanFrom_of_not_mem hopen, List.append_nil]
    · exact errors_of_not_mem hopen hclose
  rw [scan, hchars, scanFrom, if_pos rfl]
  split
  · next n hn =>
    cases hlength.symm.trans hn
    have hdrop : (content.toList ++ '}' :: more.toList).drop (content.toList.length + 1) =
        more.toList := by
      simp
    rw [hdrop, hrest]
    simp [literalPart]
  · next hn =>
    cases hlength.symm.trans hn

/-- A closed text in braces is a template of one block. -/
theorem Template.blockContent?_of_isClosed {text : String} (h : IsClosed text.toList) :
    blockContent? ("\x7b" ++ text ++ "\x7d") = some text := by
  have hscan : scan false ("\x7b" ++ text ++ "\x7d" ++ "") = ([.block text], []) :=
    scan_block_append h List.not_mem_nil List.not_mem_nil false
  rw [String.append_empty] at hscan
  simp [blockContent?, parse, hscan, singleBlock?]

theorem Template.eq_of_parse {text : String} {template : Template} (h : hasBrace text = false)
    (hparse : parse text = .ok template) : template = literalPart text.toList.reverse := by
  have hplain : (scan false text).1 = literalPart text.toList.reverse := by
    rw [scan, scanFrom_of_not_mem (not_mem_of_hasBrace h), List.append_nil]
  unfold parse at hparse
  split at hparse
  · cases hparse
  · next hscan =>
    cases hparse
    rwa [hscan] at hplain

theorem Template.blockContent?_of_hasBrace {text : String} (h : hasBrace text = false) :
    blockContent? text = none := by
  unfold blockContent?
  cases hparse : parse text with
  | error error => rfl
  | ok template =>
    dsimp only
    rw [eq_of_parse h hparse, literalPart]
    split
    · rfl
    · simp only [singleBlock?]
      split <;> rfl

theorem hasBlocks_of_hasBrace {text : String} (h : hasBrace text = false) :
    hasBlocks text = false := by
  unfold hasBlocks
  cases hparse : Template.parse text with
  | error error => rfl
  | ok template =>
    dsimp only
    rw [Template.eq_of_parse h hparse, literalPart]
    split <;> rfl

/-- A text that is no assignment and has no bar and no colon at the top level is a leaf. -/
theorem Block.classify_eq_leaf {text : String} (htrim : trim text.toList = text.toList)
    (hne : text.toList ≠ []) (hassign : splitAssignment? text.toList = none)
    (hcuts : ∀ separator, separator = '|' ∨ separator = ':' →
      topLevelOffsets separator text.toList = []) :
    classify text = .leaf text := by
  have hempty : text.toList.isEmpty = false := by simpa using hne
  have hbar := hcuts '|' (.inl rfl)
  have hcolon := hcuts ':' (.inr rfl)
  simp [classify, htrim, hempty, ofChars, hassign, splitTopLevel, hbar, cutAt, hcolon]

end QualityScript
