import QualityScript.Proofs.Syntax.Printing
import QualityScript.Proofs.Syntax.References

/-!
# Prose

Prose is words with spaces, commas, dashes, slashes, points and parentheses between them. All of these
but the point begin tokens of a script, so prose may be cut into tokens and may even spell a tree: a
difference of words, a list of them, a negated one. Every such tree has a plain word as an operand or as
an item and so reads as prose, with one exception: parentheses leave no trace in a tree, so a word alone
in parentheses is read as the word.
-/

namespace QualityScript

open Text Lexer Grammar

namespace Text

/-- The words of a text: its runs of letters. -/
def wordsOf (text : List Char) : List (List Char) :=
  (text.splitOnP (! isLetter ·)).filter (! ·.isEmpty)

/-- The words that are more than themselves in a script. -/
def reservedWords : List String := ["true", "false", "target"]

/-- The characters of prose besides letters. -/
def proseMarks : List Char := [' ', ',', '-', '/', '.', '(', ')']

/-- Words of letters with marks between them. -/
structure IsProse (text : List Char) : Prop where
  chars : ∀ c ∈ text, isLetter c ∨ c ∈ proseMarks
  words : ∀ w ∈ wordsOf text, String.ofList w ∉ reservedWords

instance (text : List Char) : Decidable (IsProse text) :=
  decidable_of_iff (text.all (fun c => isLetter c ∨ c ∈ proseMarks) ∧
    (wordsOf text).all (String.ofList · ∉ reservedWords))
    ⟨fun ⟨chars, words⟩ => ⟨by simpa using chars, by simpa using words⟩,
      fun ⟨chars, words⟩ => ⟨by simpa using chars, by simpa using words⟩⟩

variable {c : Char} {w rest text : List Char}

theorem isLetter_of_mem_proseMarks (h : c ∈ proseMarks) : isLetter c = false := by
  have hall : proseMarks.all (! isLetter ·) := by decide
  simpa using List.all_eq_true.mp hall c h

theorem isIdentChar_of_mem_proseMarks (h : c ∈ proseMarks) : isIdentChar c = false := by
  have hall : proseMarks.all (! isIdentChar ·) := by decide
  simpa using List.all_eq_true.mp hall c h

theorem isLetter_of_isBlank (h : isBlank c) : isLetter c = false := (IsStop.of_isBlank h).letter

theorem eq_space_of_isBlank (hc : isLetter c ∨ c ∈ proseMarks) (h : isBlank c) : c = ' ' := by
  rcases hc with hc | hc
  · rw [isLetter_of_isBlank h] at hc
    cases hc
  · have hall : proseMarks.all fun c => ! isBlank c || c == ' ' := by decide
    simpa [h] using List.all_eq_true.mp hall c hc

/-- A character that is no letter ends one word and begins none. -/
theorem wordsOf_append_cons (h : isLetter c = false) (front rest : List Char) :
    wordsOf (front ++ c :: rest) = wordsOf front ++ wordsOf rest := by
  unfold wordsOf
  rw [List.splitOnP_append_cons front rest (by simp [h]), List.filter_append]

theorem wordsOf_nil : wordsOf [] = [] := rfl

theorem wordsOf_cons (h : isLetter c = false) (rest : List Char) :
    wordsOf (c :: rest) = wordsOf rest := by
  simpa [wordsOf_nil] using wordsOf_append_cons h [] rest

theorem wordsOf_letters (hne : w ≠ []) (hw : ∀ c ∈ w, isLetter c) : wordsOf w = [w] := by
  rw [wordsOf, List.splitOnP_eq_singleton fun c hc => by simp [hw c hc]]
  simp [hne]

theorem wordsOf_letters_append (hne : w ≠ []) (hw : ∀ c ∈ w, isLetter c)
    (hend : ∀ c ∈ rest.head?, isLetter c = false) : wordsOf (w ++ rest) = w :: wordsOf rest := by
  cases rest with
  | nil => rw [List.append_nil, wordsOf_letters hne hw, wordsOf_nil]
  | cons c rest =>
    have hc : isLetter c = false := hend c rfl
    rw [wordsOf_append_cons hc, wordsOf_cons hc, wordsOf_letters hne hw, List.singleton_append]

theorem wordsOf_eq_nil (h : ∀ c ∈ text, isLetter c = false) : wordsOf text = [] := by
  induction text with
  | nil => rfl
  | cons c rest ih =>
    obtain ⟨hc, hrest⟩ := List.forall_mem_cons.mp h
    rw [wordsOf_cons hc, ih hrest]

/-- What is no letter at the ends of a text belongs to no word. -/
theorem wordsOf_between {left right : List Char} (hleft : ∀ c ∈ left, isLetter c = false)
    (hright : ∀ c ∈ right, isLetter c = false) (text : List Char) :
    wordsOf (left ++ text ++ right) = wordsOf text := by
  rw [List.append_assoc]
  induction left with
  | nil =>
    cases right with
    | nil => rw [List.nil_append, List.append_nil]
    | cons c right =>
      obtain ⟨hc, hright⟩ := List.forall_mem_cons.mp hright
      rw [List.nil_append, wordsOf_append_cons hc, wordsOf_eq_nil hright, List.append_nil]
  | cons c left ih =>
    obtain ⟨hc, hleft⟩ := List.forall_mem_cons.mp hleft
    rw [List.cons_append, wordsOf_cons hc, ih hleft]

theorem IsProse.trim (h : IsProse text) : IsProse (trim text) := by
  obtain ⟨left, right, htext, hleft, hright⟩ := exists_append_trim text
  refine ⟨fun c hc => h.chars c (mem_of_mem_trim hc), fun w hw => h.words w ?_⟩
  rw [htext, wordsOf_between (fun c hc => isLetter_of_isBlank (hleft c hc))
    (fun c hc => isLetter_of_isBlank (hright c hc))]
  exact hw

/-! ## Words in parentheses -/

/-- The text is a word in `n` pairs of parentheses, with spaces anywhere around it. -/
def IsEnclosed (n : Nat) (w text : List Char) : Prop :=
  w ≠ [] ∧ (∀ c ∈ w, isLetter c) ∧ ∃ left right, text = left ++ w ++ right ∧
    (∀ c ∈ left, c = ' ' ∨ c = '(') ∧ (∀ c ∈ right, c = ' ' ∨ c = ')') ∧
    left.count '(' = n ∧ right.count ')' = n

theorem IsEnclosed.openParen_mem {n : Nat} (h : IsEnclosed (n + 1) w text) : '(' ∈ text := by
  obtain ⟨-, -, left, right, rfl, -, -, hopen, -⟩ := h
  have hleft : '(' ∈ left := List.count_pos_iff.mp (by omega)
  simp [hleft]

theorem isEnclosed_of_trim (h : IsProse text) {n : Nat} (hw : IsEnclosed n w (trim text)) :
    IsEnclosed n w text := by
  obtain ⟨hne, hletters, left, right, htrim, hleft, hright, hopen, hclose⟩ := hw
  obtain ⟨before, after, htext, hbefore, hafter⟩ := exists_append_trim text
  have hspace {blanks : List Char} (hblanks : ∀ c ∈ blanks, isBlank c) (hmem : blanks ⊆ text) :
      ∀ c ∈ blanks, c = ' ' := fun c hc => eq_space_of_isBlank (h.chars c (hmem hc)) (hblanks c hc)
  have hbefore := hspace hbefore (by rw [htext]; simp)
  have hafter := hspace hafter (by rw [htext]; simp)
  have hcount {blanks : List Char} (hblanks : ∀ c ∈ blanks, c = ' ') {paren : Char}
      (hparen : paren ≠ ' ') : blanks.count paren = 0 :=
    List.count_eq_zero.mpr fun hmem => hparen (hblanks paren hmem)
  refine ⟨hne, hletters, before ++ left, right ++ after, ?_, ?_, ?_, ?_, ?_⟩
  · rw [htext, htrim]
    simp
  · exact List.forall_mem_append.mpr ⟨fun c hc => .inl (hbefore c hc), hleft⟩
  · exact List.forall_mem_append.mpr ⟨hright, fun c hc => .inl (hafter c hc)⟩
  · rw [List.count_append, hcount hbefore (by decide), hopen, Nat.zero_add]
  · rw [List.count_append, hcount hafter (by decide), hclose, Nat.add_zero]

theorem trim_between {left right : List Char} (hleft : ∀ c ∈ left, isBlank c)
    (hright : ∀ c ∈ right, isBlank c) (hne : w ≠ []) (hw : ∀ c ∈ w, isBlank c = false) :
    Text.trim (left ++ w ++ right) = w := by
  have hstart (more : List Char) : (w ++ more).dropWhile isBlank = w ++ more := by
    cases w with
    | nil => exact absurd rfl hne
    | cons c w => exact List.dropWhile_cons_of_neg (by simp [hw c (.head _)])
  have hend (more : List Char) : (w.reverse ++ more).dropWhile isBlank = w.reverse ++ more := by
    cases hreverse : w.reverse with
    | nil => exact absurd (List.reverse_eq_nil_iff.mp hreverse) hne
    | cons c rest =>
      have hc : c ∈ w := List.mem_reverse.mp (hreverse ▸ .head _)
      exact List.dropWhile_cons_of_neg (by simp [hw c hc])
  rw [Text.trim, trimStart, List.append_assoc, List.dropWhile_append_of_pos hleft, hstart, trimEnd,
    List.reverse_append, List.dropWhile_append_of_pos fun c hc => hright c (List.mem_reverse.mp hc)]
  have hnone := hend []
  rw [List.append_nil] at hnone
  rw [hnone, List.reverse_reverse]

theorem trim_of_isEnclosed_zero (h : IsEnclosed 0 w text) : trim text = w := by
  obtain ⟨hne, hletters, left, right, rfl, hleft, hright, hopen, hclose⟩ := h
  have hspaces {paren : Char} {part : List Char} (h : ∀ c ∈ part, c = ' ' ∨ c = paren)
      (hcount : part.count paren = 0) : ∀ c ∈ part, isBlank c := fun c hc => by
    obtain rfl | rfl := h c hc
    · rfl
    · exact absurd hc (List.count_eq_zero.mp hcount)
  have hword : ∀ c ∈ w, isBlank c = false := fun c hc => by
    simpa [hletters c hc] using mt (isLetter_of_isBlank (c := c))
  exact trim_between (hspaces hleft hopen) (hspaces hright hclose) hne hword

end Text

/-! ## Tokens -/

/-- The tokens that prose is cut into. -/
def Token.IsProse : Token → Prop
  | .word w => w ∉ reservedWords
  | .op (.arith .sub) | .op (.arith .div) | .op (.change .decrement) => True
  | .comma | .openParen | .closeParen => True
  | _ => False

/-- Prose and the tokens that it is cut into. -/
inductive ProseTokens : List Char → List Token → Prop where
  | nil : ProseTokens [] []
  | space {text ts} : ProseTokens text ts → ProseTokens (' ' :: text) ts
  | word {w rest ts} : w ≠ [] → (∀ c ∈ w, isLetter c) → String.ofList w ∉ reservedWords →
      ProseTokens rest ts → ProseTokens (w ++ rest) (.word (String.ofList w) :: ts)
  | mark {c t rest ts} : c ∈ proseMarks → Token.single? c = some t → ProseTokens rest ts →
      ProseTokens (c :: rest) (t :: ts)
  | dashes {rest ts} : ProseTokens rest ts →
      ProseTokens ('-' :: '-' :: rest) (.op (.change .decrement) :: ts)

theorem Token.isProse_of_single? {c : Char} {t : Token} (hc : c ∈ proseMarks)
    (h : Token.single? c = some t) : t.IsProse := by
  simp only [proseMarks, List.mem_cons, List.not_mem_nil, or_false] at hc
  rcases hc with rfl | rfl | rfl | rfl | rfl | rfl | rfl <;> cases h <;> trivial

theorem ProseTokens.isProse {text : List Char} {ts : List Token} (h : ProseTokens text ts) :
    ∀ t ∈ ts, t.IsProse := by
  induction h with
  | nil => exact nofun
  | space _ ih => exact ih
  | word _ _ hword _ ih => exact List.forall_mem_cons.mpr ⟨hword, ih⟩
  | mark hc hsingle _ ih => exact List.forall_mem_cons.mpr ⟨Token.isProse_of_single? hc hsingle, ih⟩
  | dashes _ ih => exact List.forall_mem_cons.mpr ⟨trivial, ih⟩

/-- Of the operators of two characters only the double dash stands in prose. -/
theorem pairOp?_of_prose {c d : Char} (hc : c ∈ proseMarks) (hd : isLetter d ∨ d ∈ proseMarks) :
    Token.pairOp? c d = if c = '-' ∧ d = '-' then some (.change .decrement) else none := by
  unfold Token.pairOp?
  split
  case h_10 => exact absurd hd (by decide)
  case h_12 => rfl
  case h_15 =>
    rw [if_neg]
    rintro ⟨rfl, rfl⟩
    contradiction
  all_goals exact absurd hc (by decide)

theorem isDigit_of_prose {c : Char} (hc : isLetter c ∨ c ∈ proseMarks) : c.isDigit = false := by
  rcases hc with hc | hc
  · exact isDigit_of_isLetter (by simp [hc])
  · have hall : proseMarks.all (! ·.isDigit) := by decide
    simpa using List.all_eq_true.mp hall c hc

theorem takeToken_of_mark {c : Char} {rest : List Char} (hc : c ∈ proseMarks)
    (hrest : ∀ d ∈ rest.head?, isLetter d ∨ d ∈ proseMarks) (readCall : CallReader) :
    takeToken readCall c rest = takeOp c rest := by
  have hdigit : rest.head?.any Char.isDigit = false := by
    cases hhead : rest.head? with
    | none => rfl
    | some d => exact isDigit_of_prose (hrest d hhead)
  simp only [proseMarks, List.mem_cons, List.not_mem_nil, or_false] at hc
  rcases hc with rfl | rfl | rfl | rfl | rfl | rfl | rfl
  case inr.inr.inr.inr.inl =>
    rw [takeToken, if_neg (by decide), hdigit, if_neg (by decide)]
    rfl
  all_goals rfl

theorem takeToken_of_prose {readCall : CallReader} {c : Char} {rest : List Char} {t : Token} {n : Nat}
    (hc : isLetter c ∨ c ∈ proseMarks) (hrest : ∀ d ∈ rest.head?, isLetter d ∨ d ∈ proseMarks)
    (h : takeToken readCall c rest = .ok (t, n)) :
    (isLetter c ∧ t = .word (String.ofList (c :: (spanIdent rest).1)) ∧
      n = (spanIdent rest).1.length) ∨
    (c ∈ proseMarks ∧ Token.single? c = some t ∧ n = 0) ∨
    (c = '-' ∧ rest.head? = some '-' ∧ t = .op (.change .decrement) ∧ n = 1) := by
  rcases hc with hc | hc
  · rw [takeToken_word (by simp [hc])] at h
    cases h
    exact .inl ⟨hc, rfl, rfl⟩
  · right
    rw [takeToken_of_mark hc hrest, takeOp] at h
    split at h
    · next op hop =>
      cases h
      obtain ⟨d, hd, hpair⟩ := Option.bind_eq_some_iff.mp hop
      rw [pairOp?_of_prose hc (hrest d hd)] at hpair
      split at hpair
      · next hdashes =>
        obtain ⟨rfl, rfl⟩ := hdashes
        cases hpair
        exact .inr ⟨rfl, hd, rfl, rfl⟩
      · cases hpair
    · split at h
      · next hsingle =>
        cases h
        exact .inl ⟨hc, hsingle, rfl⟩
      · cases h

/-- In prose a word ends where the letters end. -/
theorem exists_spanIdent_of_prose {text : List Char}
    (h : ∀ c ∈ text, isLetter c ∨ c ∈ proseMarks) :
    ∃ w more, spanIdent text = (w, more) ∧ text = w ++ more ∧ (∀ c ∈ w, isLetter c) ∧
      ∀ c ∈ more.head?, isLetter c = false := by
  refine ⟨_, _, rfl, (spanIdent_append text).symm, fun c hc => ?_, fun c hc => ?_⟩
  · have hident : isIdentChar c := List.mem_takeWhile_imp hc
    refine (h c ((List.takeWhile_sublist _).subset hc)).resolve_right fun hmark => ?_
    rw [isIdentChar_of_mem_proseMarks hmark] at hident
    cases hident
  · have hident : isIdentChar c = false := by
      have hhead := List.head?_dropWhile_not isIdentChar text
      rw [Option.mem_def.mp hc] at hhead
      exact hhead
    refine eq_false_of_ne_true fun hletter => ?_
    rw [isIdentChar_of_isLetter hletter] at hident
    cases hident

/-- Prose is cut into tokens of prose, unless a point is no token. -/
theorem proseTokens_of_tokens {readCall : CallReader} {text : List Char} {ts : List Token}
    (h : Text.IsProse text) (htokens : tokens readCall text = .ok ts) : ProseTokens text ts := by
  fun_induction tokens readCall text generalizing ts with
  | case1 =>
    cases htokens
    exact .nil
  | case2 c rest hblank ih =>
    obtain rfl := eq_space_of_isBlank (h.chars c (.head _)) hblank
    refine .space (ih ⟨fun c hc => h.chars c (.tail _ hc), fun w hw => h.words w ?_⟩ htokens)
    rwa [wordsOf_cons (by decide)]
  | case3 => cases htokens
  | case4 c rest hblank t n htake ih =>
    obtain ⟨more, hmore, rfl⟩ := exists_of_map_eq_ok htokens
    have hchars : ∀ d ∈ rest, isLetter d ∨ d ∈ proseMarks := fun d hd => h.chars d (.tail _ hd)
    have hhead : ∀ d ∈ rest.head?, isLetter d ∨ d ∈ proseMarks := fun d hd =>
      hchars d (List.mem_of_head? hd)
    have hdrop : ∀ d ∈ rest.drop n, isLetter d ∨ d ∈ proseMarks := fun d hd =>
      hchars d (List.mem_of_mem_drop hd)
    obtain ⟨hc, rfl, rfl⟩ | ⟨hc, hsingle, rfl⟩ | ⟨rfl, hdash, rfl, rfl⟩ :=
      takeToken_of_prose (h.chars c (.head _)) hhead htake
    · obtain ⟨w, rest', hspan, rfl, hw, hend⟩ := exists_spanIdent_of_prose hchars
      simp only [hspan, List.drop_left] at ih hmore hdrop ⊢
      have hletters : ∀ d ∈ c :: w, isLetter d := List.forall_mem_cons.mpr ⟨hc, hw⟩
      have hwords := wordsOf_letters_append (List.cons_ne_nil c w) hletters hend
      have hall := h.words
      rw [← List.cons_append, hwords] at hall
      obtain ⟨hword, hwords⟩ := List.forall_mem_cons.mp hall
      exact .word (List.cons_ne_nil c w) hletters hword (ih ⟨hdrop, hwords⟩ hmore)
    · have hletter := isLetter_of_mem_proseMarks hc
      refine .mark hc hsingle (ih ⟨hdrop, fun w hw => h.words w ?_⟩ hmore)
      rwa [wordsOf_cons hletter]
    · cases rest with
      | nil => cases hdash
      | cons d rest =>
        cases hdash
        refine .dashes (ih ⟨hdrop, fun w hw => h.words w ?_⟩ hmore)
        rwa [wordsOf_cons (by decide), wordsOf_cons (by decide)]

/-! ## Trees -/

/-- The tokens of a word in `n` pairs of parentheses. -/
def enclosedTokens (n : Nat) (w : String) : List Token :=
  List.replicate n .openParen ++ .word w :: List.replicate n .closeParen

theorem enclosedTokens_succ (n : Nat) (w : String) :
    enclosedTokens (n + 1) w = .openParen :: (enclosedTokens n w ++ [.closeParen]) := by
  have hclose : List.replicate (n + 1) Token.closeParen =
      List.replicate n .closeParen ++ [.closeParen] := List.replicate_succ'
  rw [enclosedTokens, hclose, List.replicate_succ, enclosedTokens]
  simp

theorem anyProse_of_forall {items : List Expr} (hne : items ≠ [])
    (h : ∀ e ∈ items, e.isBareWord ∨ e.readsAsProse) : Expr.anyProse items := by
  cases items with
  | nil => exact absurd rfl hne
  | cons e items =>
    have he := h e (.head _)
    simp only [Expr.anyProse, Bool.or_eq_true]
    exact .inl he

theorem direction?_of_isProse {t : Token} (h : t.IsProse) : direction? t = none := by
  unfold direction?
  split
  · exact h.elim
  · exact h.elim
  · rfl

/-- Tokens of prose spell plain words and trees that read as prose; a plain word is spelled by the word,
perhaps in parentheses. -/
theorem prose_of_spells {ts : List Token} {items : List Expr} (h : Spells ts items)
    (hts : ∀ t ∈ ts, t.IsProse) : (∀ e ∈ items, e.isBareWord ∨ e.readsAsProse) ∧
      ∀ w, items = [.word w] → ∃ n, ts = enclosedTokens n w := by
  induction h with
  | @operand t e ht =>
    have hprose := hts t (.head _)
    cases t with
    | word w =>
      have hreserved : w ≠ "true" ∧ w ≠ "false" ∧ w ≠ "target" := by
        simpa [Token.IsProse, reservedWords] using hprose
      obtain ⟨htrue, hfalse, htarget⟩ := hreserved
      obtain rfl : e = .word w := by simpa [operand?, ofWord, htrue, hfalse] using ht.symm
      refine ⟨fun e he => ?_, fun w' heq => ⟨0, ?_⟩⟩
      · rw [List.mem_singleton.mp he]
        exact .inl (by simpa [Expr.isBareWord] using htarget)
      · cases heq
        rfl
    | int | float | text | ref | aliasName | call => exact hprose.elim
    | percent | comma | semicolon | tilde | op | openParen | closeParen => cases ht
  | @neg ts e h ih =>
    obtain ⟨he, -⟩ := ih fun t ht => hts t (.tail _ ht)
    refine ⟨fun e' he' => .inr ?_, by simp⟩
    obtain rfl := List.mem_singleton.mp he'
    simpa [Expr.readsAsProse] using he e (.head _)
  | plus => exact (hts _ (.head _)).elim
  | not => exact (hts _ (.head _)).elim
  | @parens ts e h ih =>
    obtain ⟨he, hword⟩ := ih fun t ht => hts t (.tail _ (List.mem_append_left _ ht))
    refine ⟨he, fun w heq => ?_⟩
    obtain ⟨n, rfl⟩ := hword w heq
    exact ⟨n + 1, (enclosedTokens_succ n w).symm⟩
  | @arith a b lhs rhs op hlhs hrhs ihlhs ihrhs =>
    obtain ⟨hl, -⟩ := ihlhs fun t ht => hts t (List.mem_append_left _ ht)
    refine ⟨fun e he => .inr ?_, by simp⟩
    obtain rfl := List.mem_singleton.mp he
    simp only [Expr.readsAsProse, Bool.or_eq_true]
    rcases hl lhs (.head _) with hbare | hprose
    · exact .inl (.inl (.inl hbare))
    · exact .inl (.inr hprose)
  | compare op => exact (hts _ (List.mem_append_right _ (.head _))).elim
  | challenge ht =>
    rw [direction?_of_isProse (hts _ (List.mem_append_right _ (.head _)))] at ht
    cases ht
  | rolled ht =>
    rw [direction?_of_isProse (hts _ (List.mem_append_right _ (.head _)))] at ht
    cases ht
  | @joined a b t items e ht hitems he ihitems ihe =>
    obtain ⟨hfront, -⟩ := ihitems fun t ht => hts t (List.mem_append_left _ ht)
    obtain ⟨hlast, -⟩ := ihe fun t ht => hts t (List.mem_append_right _ (.tail _ ht))
    refine ⟨List.forall_mem_append.mpr ⟨hfront, hlast⟩, fun w heq => ?_⟩
    obtain ⟨hnil, -⟩ | ⟨-, hnil⟩ := List.append_eq_singleton_iff.mp heq
    · exact absurd hnil hitems.ne_nil
    · cases hnil
  | and h _ ih =>
    obtain ⟨hall, -⟩ := ih hts
    refine ⟨fun e he => .inr ?_, by simp⟩
    rw [List.mem_singleton.mp he, Expr.readsAsProse]
    exact anyProse_of_forall h.ne_nil hall
  | or h _ ih =>
    obtain ⟨hall, -⟩ := ih hts
    refine ⟨fun e he => .inr ?_, by simp⟩
    rw [List.mem_singleton.mp he, Expr.readsAsProse]
    exact anyProse_of_forall h.ne_nil hall

/-- No effect begins with a token of prose. -/
theorem effect_of_isProse {group : List Token} (h : ∀ t ∈ group, t.IsProse) :
    ∃ error, effect group = .error error := by
  unfold effect
  cases group with
  | nil => exact ⟨_, rfl⟩
  | cons t rest =>
    have htarget : effectTarget? t = none := by
      have ht := h t (.head _)
      unfold effectTarget?
      split
      · exact ht.elim
      · exact ht.elim
      · rfl
    simp only [htarget]
    exact ⟨_, rfl⟩

theorem spells_of_prose {ts : List Token} {e : Expr} (hts : ∀ t ∈ ts, t.IsProse)
    (h : rangeOrExpression false ts = .ok e) : Spells ts [e] := by
  unfold rangeOrExpression at h
  split at h
  · cases h
  · next lo rest hlo =>
    obtain ⟨used, rfl, -⟩ := sound_expression false hlo
    exact (hts .tilde (List.mem_append_right _ (.head _))).elim
  · next hread =>
    obtain ⟨rfl, rfl⟩ := complete_eq_ok h
    obtain ⟨used, rfl, hused⟩ := sound_expression false hread
    rwa [List.append_nil]

/-- A tree of tokens of prose reads as prose, or it is a word and the tokens are the word in
parentheses. -/
theorem prose_of_tree {ts : List Token} {e : Expr} (hts : ∀ t ∈ ts, t.IsProse)
    (h : tree false ts = .ok e) :
    e.readsAsProse ∨ ∃ n w, e = .word w ∧ ts = enclosedTokens n w := by
  have hsemicolon : ts.any isSemicolon = false := List.any_eq_false.mpr fun t ht => by
    have hprose := hts t ht
    unfold isSemicolon
    split
    · exact hprose.elim
    · exact Bool.false_ne_true
  unfold tree at h
  split at h
  · cases h
  rw [hsemicolon, if_neg Bool.false_ne_true] at h
  split at h
  · -- The first group would have to be an effect.
    obtain ⟨effects, heffects, rfl⟩ := exists_of_map_eq_ok h
    cases hgroups : groups ts with
    | nil => exact absurd hgroups (groups_ne_nil ts)
    | cons group more =>
      obtain ⟨error, herror⟩ : ∃ error, effect group = .error error :=
        effect_of_isProse fun t ht => hts t (mem_of_mem_groups (by rw [hgroups]; exact .head _) ht)
      rw [hgroups, List.mapM_cons, herror] at heffects
      cases heffects
  · obtain ⟨hread, hword⟩ := prose_of_spells (spells_of_prose hts h) hts
    rcases hread e (.head _) with hbare | hprose
    · cases e with
      | word w =>
        obtain ⟨n, hn⟩ := hword w rfl
        exact .inr ⟨n, w, rfl, hn⟩
      | _ => cases hbare
    · exact .inl hprose

/-! ## Words alone in parentheses -/

theorem isReadBack_enclosedTokens {w : String} (hword : ofWord w = .word w) (n : Nat) :
    IsReadBack (enclosedTokens n w) (.word w) := by
  induction n with
  | zero => exact .of_operand (congrArg some hword) rfl
  | succ n ih =>
    rw [enclosedTokens_succ]
    exact .of_reads ih.parens (.inr (Nat.le_refl 6))

theorem tree_enclosedTokens {w : String} (hword : ofWord w = .word w) (n : Nat) :
    tree false (enclosedTokens n w) = .ok (.word w) := by
  have hkinds : ∀ t ∈ enclosedTokens n w, t = .openParen ∨ t = .word w ∨ t = .closeParen := by
    intro t ht
    rcases List.mem_append.mp ht with ht | ht
    · exact .inl (List.eq_of_mem_replicate ht)
    · rcases List.mem_cons.mp ht with rfl | ht
      · exact .inr (.inl rfl)
      · exact .inr (.inr (List.eq_of_mem_replicate ht))
  refine tree_of_isReadBack (isReadBack_enclosedTokens hword n) (fun t ht => ?_) fun t ht => ?_
  · obtain rfl | rfl | rfl := hkinds t ht <;> rfl
  · obtain rfl | rfl | rfl := hkinds t ht <;> rfl

/-- Parentheses of one kind with spaces between them are one token each. -/
theorem tokens_parens {paren : Char} {t : Token} (hblank : isBlank paren = false)
    (htake : ∀ readCall rest, takeToken readCall paren rest = .ok (t, 0)) {part more : List Char}
    (hpart : ∀ c ∈ part, c = ' ' ∨ c = paren) {readCall : CallReader} {ts : List Token}
    (hmore : tokens readCall more = .ok ts) :
    tokens readCall (part ++ more) = .ok (List.replicate (part.count paren) t ++ ts) := by
  induction part with
  | nil => exact hmore
  | cons c part ih =>
    obtain ⟨hc, hrest⟩ := List.forall_mem_cons.mp hpart
    have hread := ih hrest
    obtain rfl | rfl := hc
    · have hne : ' ' ≠ paren := by
        rintro rfl
        cases hblank
      rw [List.cons_append, tokens_blank rfl, hread, List.count_cons_of_ne hne]
    · rw [List.cons_append, tokens, if_neg (by simp [hblank]), htake, List.count_cons_self,
        List.replicate_succ]
      simp only [List.drop_zero, hread]
      rfl

theorem takeToken_openParen (readCall : CallReader) (rest : List Char) :
    takeToken readCall '(' rest = .ok (.openParen, 0) := by
  cases rest <;> rfl

theorem takeToken_closeParen (readCall : CallReader) (rest : List Char) :
    takeToken readCall ')' rest = .ok (.closeParen, 0) := by
  cases rest <;> rfl

theorem IsStop.closeParen : IsStop ')' where
  ident := by decide
  dot := by decide
  bracket := by decide
  pair c' := by unfold Token.pairOp?; split <;> first | rfl | contradiction

theorem tokens_of_isEnclosed {n : Nat} {w text : List Char} (h : IsEnclosed n w text)
    (readCall : CallReader) :
    tokens readCall text = .ok (enclosedTokens n (String.ofList w)) := by
  obtain ⟨hne, hletters, left, right, rfl, hleft, hright, rfl, hclose⟩ := h
  have hend : tokens readCall right = .ok (List.replicate (left.count '(') .closeParen) := by
    have hnone : tokens readCall [] = .ok [] := by rw [tokens]
    have hread := tokens_parens rfl takeToken_closeParen hright hnone
    rwa [List.append_nil, List.append_nil, hclose] at hread
  have hword : IsToken w (.word (String.ofList w)) := by
    have htoken : IsWord (String.ofList w).toList := by
      rw [String.toList_ofList]
      cases w with
      | nil => exact absurd rfl hne
      | cons c rest =>
        obtain ⟨hc, hrest⟩ := List.forall_mem_cons.mp hletters
        exact ⟨c, rest, rfl, by simp [hc], fun d hd => isIdentChar_of_isLetter (hrest d hd)⟩
    simpa using isToken_word htoken
  have hstops : Stops right := fun c hc => by
    obtain rfl | rfl := hright c (List.mem_of_head? hc)
    · exact .of_isBlank rfl
    · exact .closeParen
  have hmiddle := hword readCall right hstops
  rw [hend] at hmiddle
  rw [List.append_assoc]
  exact tokens_parens rfl takeToken_openParen hleft hmiddle

theorem Token.single?_injective {c d : Char} {t : Token} (hc : Token.single? c = some t)
    (hd : Token.single? d = some t) : c = d := by
  unfold Token.single? at hc
  split at hc <;> cases hc <;>
  · unfold Token.single? at hd
    split at hd <;> cases hd
    rfl

/-- Closing parentheses alone come from closing parentheses and spaces. -/
theorem ProseTokens.closing {text : List Char} {n : Nat}
    (h : ProseTokens text (List.replicate n .closeParen)) :
    (∀ c ∈ text, c = ' ' ∨ c = ')') ∧ text.count ')' = n := by
  generalize hts : List.replicate n Token.closeParen = ts at h
  induction h generalizing n with
  | nil =>
    rw [List.replicate_eq_nil_iff] at hts
    exact ⟨nofun, hts.symm⟩
  | space _ ih =>
    obtain ⟨hall, hcount⟩ := ih hts
    exact ⟨List.forall_mem_cons.mpr ⟨.inl rfl, hall⟩, by rw [List.count_cons_of_ne (by decide), hcount]⟩
  | word => cases n <;> cases hts
  | mark _ hsingle _ ih =>
    cases n with
    | zero => cases hts
    | succ n =>
      cases hts
      obtain rfl := Token.single?_injective (d := ')') hsingle rfl
      obtain ⟨hall, hcount⟩ := ih rfl
      exact ⟨List.forall_mem_cons.mpr ⟨.inr rfl, hall⟩, by rw [List.count_cons_self, hcount]⟩
  | dashes => cases n <;> cases hts

/-- What is cut into a word between parentheses is the word between parentheses. -/
theorem ProseTokens.exists_parts {text : List Char} {m n : Nat} {w : String}
    (h : ProseTokens text
      (List.replicate n .openParen ++ .word w :: List.replicate m .closeParen)) :
    w.toList ≠ [] ∧ (∀ c ∈ w.toList, isLetter c) ∧ ∃ left right, text = left ++ w.toList ++ right ∧
      (∀ c ∈ left, c = ' ' ∨ c = '(') ∧ (∀ c ∈ right, c = ' ' ∨ c = ')') ∧
      left.count '(' = n ∧ right.count ')' = m := by
  generalize hts : List.replicate n Token.openParen ++ .word w :: List.replicate m .closeParen = ts at h
  induction h generalizing n with
  | nil => cases n <;> cases hts
  | space _ ih =>
    obtain ⟨hne, hletters, left, right, rfl, hleft, hright, hopen, hclose⟩ := ih hts
    refine ⟨hne, hletters, ' ' :: left, right, rfl, List.forall_mem_cons.mpr ⟨.inl rfl, hleft⟩, hright,
      ?_, hclose⟩
    rw [List.count_cons_of_ne (by decide), hopen]
  | @word v rest ts hne hletters _ hrest _ =>
    cases n with
    | zero =>
      cases hts
      obtain ⟨hright, hclose⟩ := hrest.closing
      rw [String.toList_ofList]
      exact ⟨hne, hletters, [], rest, rfl, nofun, hright, rfl, hclose⟩
    | succ n => cases hts
  | @mark c t rest ts _ hsingle _ ih =>
    cases n with
    | zero =>
      cases hts
      unfold Token.single? at hsingle
      split at hsingle <;> cases hsingle
    | succ n =>
      cases hts
      obtain rfl := Token.single?_injective (d := '(') hsingle rfl
      obtain ⟨hne, hletters, left, right, rfl, hleft, hright, hopen, hclose⟩ := ih rfl
      refine ⟨hne, hletters, '(' :: left, right, rfl, List.forall_mem_cons.mpr ⟨.inr rfl, hleft⟩,
        hright, ?_, hclose⟩
      rw [List.count_cons_self, hopen]
  | dashes => cases n <;> cases hts

theorem ProseTokens.isEnclosed {text : List Char} {n : Nat} {w : String}
    (h : ProseTokens text (enclosedTokens n w)) : IsEnclosed n w.toList text := h.exists_parts

/-- Trimming leaves the word and its parentheses. -/
theorem isEnclosed_trim_iff {n : Nat} {w text : List Char} (h : Text.IsProse text) :
    IsEnclosed n w (trim text) ↔ IsEnclosed n w text := by
  refine ⟨isEnclosed_of_trim h, fun hw => ?_⟩
  have htokens := tokens_trim (tokens_of_isEnclosed hw fun _ _ => .error .unexpectedEnd)
  simpa using (proseTokens_of_tokens h.trim htokens).isEnclosed

namespace Expr

/-- An expression that prose is read as reads as prose, unless the text is a word in parentheses. -/
theorem prose_of_parse {text : String} {e : Expr} (h : Text.IsProse text.toList)
    (hparse : parse text = .ok e) :
    e.readsAsProse ∨ ∃ n w, e = .word w ∧ IsEnclosed n w.toList text.toList := by
  unfold parse parseWith readAt at hparse
  split at hparse
  · cases hparse
  · next ts htokens =>
    have hts := proseTokens_of_tokens h htokens
    obtain hprose | ⟨n, w, rfl, rfl⟩ := prose_of_tree hts.isProse hparse
    · exact .inl hprose
    · exact .inr ⟨n, w, rfl, hts.isEnclosed⟩

theorem parse_of_isEnclosed {text : String} {n : Nat} {w : List Char}
    (h : Text.IsProse text.toList) (hw : IsEnclosed n w text.toList) :
    parse text = .ok (.word (String.ofList w)) := by
  have hreserved : String.ofList w ∉ reservedWords := by
    obtain ⟨hne, hletters, left, right, htext, hleft, hright, -, -⟩ := hw
    refine h.words w ?_
    have hmark {part : List Char} {paren : Char} (hparen : isLetter paren = false)
        (hpart : ∀ c ∈ part, c = ' ' ∨ c = paren) : ∀ c ∈ part, isLetter c = false := fun c hc => by
      obtain rfl | rfl := hpart c hc
      · rfl
      · exact hparen
    rw [htext, wordsOf_between (hmark rfl hleft) (hmark rfl hright), wordsOf_letters hne hletters]
    exact .head _
  have hword : ofWord (String.ofList w) = .word (String.ofList w) := by
    have hne : String.ofList w ≠ "true" ∧ String.ofList w ≠ "false" ∧
        String.ofList w ≠ "target" := by
      simpa [reservedWords] using hreserved
    simp [ofWord, hne]
  rw [parse_of_tokens (tokens_of_isEnclosed hw), tree_enclosedTokens hword]

end Expr

end QualityScript
