import QualityScript.Template

/-!
# Templates that are put together

Where a block ends is first looked for with respect for quotes, and only when that fails by counting
all braces. An end that was found the first way stays where it is, whatever text follows. An end that
was found the second way is given up when the text that follows lets the first way succeed. So two
templates put together are cut as they are cut alone exactly when no block of the first one gets
another end.
-/

namespace QualityScript

open Text

variable {text rest more : List Char} {honour : Bool} {quote : Option Char} {before c : Char}
variable {depth n : Nat}

/-- One character either closes the block or leaves a search in the rest. A quote that is open then
was open before or stands there. -/
theorem closingBrace?_step (honour : Bool) (depth : Nat) (quote : Option Char) (before c : Char) :
    (∀ rest, closingBrace? honour depth quote before (c :: rest) = some 0) ∨
      ∃ depth' quote', (∀ q ∈ quote', q ∈ quote ∨ isQuote q) ∧ ∀ rest,
        closingBrace? honour depth quote before (c :: rest) =
          (closingBrace? honour depth' quote' c rest).map (· + 1) := by
  cases quote with
  | some q =>
    refine .inr ⟨depth, if c = q then none else some q, fun x hx => ?_, fun rest => rfl⟩
    split at hx
    · cases hx
    · exact .inl hx
  | none =>
    by_cases hopen : c = '{'
    · exact .inr ⟨depth + 1, none, nofun, fun rest => by simp [closingBrace?, hopen]⟩
    by_cases hclose : c = '}'
    · cases depth with
      | zero => exact .inl fun rest => by simp [closingBrace?, hclose]
      | succ depth => exact .inr ⟨depth, none, nofun, fun rest => by simp [closingBrace?, hclose]⟩
    by_cases hquote : (honour && startsQuote (some before) c) = true
    · refine .inr ⟨depth, some c, fun q hq => ?_, fun rest => by
        simp only [closingBrace?, if_neg hopen, if_neg hclose, if_pos hquote]⟩
      cases hq
      simp only [startsQuote, Bool.and_eq_true] at hquote
      exact .inr hquote.2.1
    · exact .inr ⟨depth, none, nofun, fun rest => by
        simp only [closingBrace?, if_neg hopen, if_neg hclose, if_neg hquote]⟩

/-- An end that was found stays where it is. -/
theorem closingBrace?_append (h : closingBrace? honour depth quote before text = some n)
    (more : List Char) : closingBrace? honour depth quote before (text ++ more) = some n := by
  induction text generalizing depth quote before n with
  | nil => cases h
  | cons c rest ih =>
    obtain hend | ⟨depth', quote', -, hstep⟩ := closingBrace?_step honour depth quote before c
    · rw [hend] at h
      rw [List.cons_append, hend, h]
    · rw [hstep] at h
      obtain ⟨k, hk, rfl⟩ := Option.map_eq_some_iff.mp h
      rw [List.cons_append, hstep, ih hk, Option.map_some]

/-- An end in the longer text that lies in the shorter one is one there, too. -/
theorem closingBrace?_of_append
    (h : closingBrace? honour depth quote before (text ++ more) = some n) (hn : n < text.length) :
    closingBrace? honour depth quote before text = some n := by
  induction text generalizing depth quote before n with
  | nil => cases hn
  | cons c rest ih =>
    rw [List.cons_append] at h
    obtain hend | ⟨depth', quote', -, hstep⟩ := closingBrace?_step honour depth quote before c
    · rw [hend] at h ⊢
      exact h
    · rw [hstep] at h ⊢
      obtain ⟨k, hk, rfl⟩ := Option.map_eq_some_iff.mp h
      rw [ih hk (Nat.lt_of_succ_lt_succ hn), Option.map_some]

/-- Where neither part of a text has an end, there is none. -/
theorem closingBrace?_append_eq_none (h : closingBrace? honour depth quote before text = none)
    (hquote : ∀ q ∈ quote, isQuote q)
    (hmore : ∀ depth quote before, (∀ q ∈ quote, isQuote q) →
      closingBrace? honour depth quote before more = none) :
    closingBrace? honour depth quote before (text ++ more) = none := by
  induction text generalizing depth quote before with
  | nil => exact hmore depth quote before hquote
  | cons c rest ih =>
    obtain hend | ⟨depth', quote', hquote', hstep⟩ := closingBrace?_step honour depth quote before c
    · rw [hend] at h
      cases h
    · rw [hstep, Option.map_eq_none_iff] at h
      rw [List.cons_append, hstep, Option.map_eq_none_iff]
      exact ih h fun q hq => (hquote' q hq).elim (hquote q) id

/-- A block is found to end elsewhere only when honouring quotes closes it in the longer text alone. -/
theorem blockLength?_append (h : blockLength? rest = some n)
    (hopen : closingBrace? true 0 none '{' rest = none →
      closingBrace? true 0 none '{' (rest ++ more) = none) :
    blockLength? (rest ++ more) = some n := by
  unfold blockLength? at h ⊢
  cases hhonoured : closingBrace? true 0 none '{' rest with
  | some k => simpa [hhonoured, closingBrace?_append hhonoured] using h
  | none =>
    have hcounted : closingBrace? false 0 none '{' rest = some n := by simpa [hhonoured] using h
    simp [hopen hhonoured, closingBrace?_append hcounted]

theorem closingBrace?_of_blockLength?_append (h : blockLength? (rest ++ more) = some n)
    (hn : n < rest.length) (hopen : closingBrace? true 0 none '{' rest = none) :
    closingBrace? true 0 none '{' (rest ++ more) = none := by
  cases hlate : closingBrace? true 0 none '{' (rest ++ more) with
  | none => rfl
  | some k =>
    obtain rfl : k = n := by simpa [blockLength?, hlate] using h
    cases hopen.symm.trans (closingBrace?_of_append hlate hn)

/-! ## Cuts without errors -/

/-- With the plain part `collected` before it, last character first, the text is cut into the template
and each of its braces has a partner. -/
inductive Cuts : List Char → List Char → Template → Prop where
  | nil {collected} : Cuts collected [] (literalPart collected)
  | block {collected rest n segments} : blockLength? rest = some n →
      Cuts [] (rest.drop (n + 1)) segments →
      Cuts collected ('{' :: rest)
        (literalPart collected ++ .block (String.ofList (rest.take n)) :: segments)
  | plain {collected c rest template} : c ≠ '{' → c ≠ '}' → Cuts (c :: collected) rest template →
      Cuts collected (c :: rest) template

theorem cuts_of_scanFrom {offset : Nat} {before : Option Char} {collected : List Char}
    (h : (scanFrom false offset before collected text).2 = []) :
    Cuts collected text (scanFrom false offset before collected text).1 := by
  fun_induction scanFrom false offset before collected text with
  | case1 => exact .nil
  | case2 offset before collected rest n hn hlt segments errors hscan ih =>
    rw [hscan] at ih
    exact .block hn (ih h)
  | case3 => cases h
  | case4 offset before collected c rest hc n hn => simp at hn
  | case5 offset before collected c rest hc hn segments errors hscan ih =>
    rw [hscan] at ih
    by_cases hclose : c = '}'
    · simp [hclose] at h
    · rw [if_neg hclose] at h
      exact .plain hc hclose (ih h)

theorem Cuts.scanFrom_eq {collected : List Char} {template : Template}
    (h : Cuts collected text template) (offset : Nat) (before : Option Char) :
    scanFrom false offset before collected text = (template, []) := by
  induction h generalizing offset before with
  | nil => rw [scanFrom]
  | block hn h ih =>
    rw [scanFrom, if_pos rfl]
    split
    · next m hm =>
      cases hn.symm.trans hm
      rw [ih]
    · next hnone => cases hn.symm.trans hnone
  | plain hopen hclose h ih =>
    rw [scanFrom, if_neg hopen]
    simp [ih, hclose]

theorem Template.parse_eq_ok_iff {input : String} {template : Template} :
    parse input = .ok template ↔ Cuts [] input.toList template := by
  unfold parse scan
  constructor
  · intro h
    split at h
    · cases h
    · next hscan =>
      cases h
      have hcuts := cuts_of_scanFrom (congrArg Prod.snd hscan)
      rwa [hscan] at hcuts
  · intro h
    rw [h.scanFrom_eq]

/-! ## Two templates -/

/-- The segments of two templates, with the plain parts merged where they meet. -/
def Template.joined : Template → Template → Template
  | [.literal a], .literal b :: rest => .literal (a ++ b) :: rest
  | [], other => other
  | segment :: segments, other => segment :: joined segments other

theorem Template.joined_literalPart_block (collected : List Char) (content : String)
    (segments other : Template) :
    joined (literalPart collected ++ .block content :: segments) other =
      literalPart collected ++ .block content :: joined segments other := by
  unfold literalPart
  split <;> simp [joined]

/-- Plain text in front of a text whose first segment after its plain part is a block, if any. -/
theorem Template.joined_literalPart (earlier collected : List Char) {segments : Template}
    (h : ∀ text, segments.head? ≠ some (.literal text)) :
    joined (literalPart earlier) (literalPart collected ++ segments) =
      literalPart (collected ++ earlier) ++ segments := by
  have hmerge : String.ofList earlier.reverse ++ String.ofList collected.reverse =
      String.ofList (collected ++ earlier).reverse := by
    rw [List.reverse_append, String.ofList_append]
  cases earlier with
  | nil => simp [literalPart, joined]
  | cons c earlier =>
    cases collected with
    | nil =>
      cases segments with
      | nil => simp [literalPart, joined]
      | cons segment segments =>
        cases segment with
        | literal text => exact absurd rfl (h text)
        | block content => simp [literalPart, joined]
    | cons d collected =>
      rw [List.cons_append] at hmerge
      simp only [literalPart, List.isEmpty_cons, Bool.false_eq_true, if_false, List.cons_append,
        List.nil_append, joined, hmerge]

/-- Plain text collected before a text goes in front of its template. -/
theorem Cuts.joined_literalPart {collected : List Char} {template : Template}
    (h : Cuts collected text template) (earlier : List Char) :
    Cuts (collected ++ earlier) text (.joined (literalPart earlier) template) := by
  induction h with
  | @nil collected =>
    have hjoined : Template.joined (literalPart earlier) (literalPart collected) =
        literalPart (collected ++ earlier) := by
      simpa using Template.joined_literalPart earlier collected (fun _ => by simp : ∀ text,
        ([] : Template).head? ≠ some (.literal text))
    exact hjoined ▸ .nil
  | block hn h ih =>
    rw [Template.joined_literalPart _ _ fun _ => by simp]
    exact .block hn h
  | plain hopen hclose h ih => exact .plain hopen hclose ih

/-- The texts behind the opening braces of the blocks. -/
def openedBlocks : List Char → List (List Char)
  | [] => []
  | c :: rest =>
    if c = '{' then
      match h : blockLength? rest with
      | some n =>
        have := blockLength?_lt h
        rest :: openedBlocks (rest.drop (n + 1))
      | none => []
    else openedBlocks rest
termination_by text => text.length
decreasing_by
  all_goals simp only [List.length_cons, List.length_drop]; omega

theorem openedBlocks_block (h : blockLength? rest = some n) :
    openedBlocks ('{' :: rest) = rest :: openedBlocks (rest.drop (n + 1)) := by
  rw [openedBlocks, if_pos rfl]
  split
  · next m hm =>
    cases h.symm.trans hm
    rfl
  · next hnone => cases h.symm.trans hnone

theorem openedBlocks_plain (h : c ≠ '{') (rest : List Char) :
    openedBlocks (c :: rest) = openedBlocks rest := by
  rw [openedBlocks, if_neg h]

/-- If honouring quotes does not close a block, it does not close it with `more` behind it either. -/
def KeepsEnd (more rest : List Char) : Prop :=
  closingBrace? true 0 none '{' rest = none → closingBrace? true 0 none '{' (rest ++ more) = none

instance (more rest : List Char) : Decidable (KeepsEnd more rest) :=
  inferInstanceAs (Decidable (_ → _))

theorem Cuts.append {collected : List Char} {template other : Template}
    (h : Cuts collected text template) (hmore : Cuts [] more other)
    (hkeeps : ∀ rest ∈ openedBlocks text, KeepsEnd more rest) :
    Cuts collected (text ++ more) (template.joined other) := by
  induction h with
  | nil => exact hmore.joined_literalPart _
  | @block collected rest n segments hn h ih =>
    rw [openedBlocks_block hn, List.forall_mem_cons] at hkeeps
    have hlt : n < rest.length := blockLength?_lt hn
    have hrest := ih hkeeps.2
    rw [← List.drop_append_of_le_length hlt] at hrest
    rw [Template.joined_literalPart_block, ← List.take_append_of_le_length (Nat.le_of_lt hlt)]
    exact .block (blockLength?_append hn hkeeps.1) hrest
  | plain hopen hclose h ih =>
    rw [openedBlocks_plain hopen] at hkeeps
    exact .plain hopen hclose (ih hkeeps)

theorem Cuts.keepsEnd_of_append {collected : List Char} {template other : Template}
    (h : Cuts collected text template) (hboth : Cuts collected (text ++ more) (template.joined other)) :
    ∀ rest ∈ openedBlocks text, KeepsEnd more rest := by
  generalize htemplate : template.joined other = whole at hboth
  induction h generalizing whole with
  | nil => simp [openedBlocks]
  | @block collected rest n segments hn h ih =>
    have hlt : n < rest.length := blockLength?_lt hn
    rw [List.cons_append] at hboth
    cases hboth with
    | @block _ _ m segments' hm hrest =>
      rw [Template.joined_literalPart_block, List.append_cancel_left_eq] at htemplate
      obtain ⟨hcontent, rfl⟩ := List.cons.inj htemplate
      have htake : rest.take n = (rest ++ more).take m := by simpa [String.ofList_inj] using hcontent
      obtain rfl : n = m := by
        have hlength := congrArg List.length htake
        rwa [List.length_take_of_le (Nat.le_of_lt hlt),
          List.length_take_of_le (Nat.le_of_lt (blockLength?_lt hm))] at hlength
      rw [List.drop_append_of_le_length hlt] at hrest
      rw [openedBlocks_block hn, List.forall_mem_cons]
      exact ⟨closingBrace?_of_blockLength?_append hm hlt, ih _ rfl hrest⟩
    | plain hopen => exact absurd rfl hopen
  | plain hopen hclose h ih =>
    rw [openedBlocks_plain hopen]
    cases hboth with
    | block => exact absurd rfl hopen
    | plain _ _ hrest => exact ih _ htemplate hrest

/-! ## Texts without quotes -/

/-- What closes the block leaves a search for the next brace where more of them are open. -/
theorem closingBrace?_deeper (h : closingBrace? honour depth quote before text = some n) (k : Nat) :
    closingBrace? honour (depth + k + 1) quote before text =
      (closingBrace? honour k none '}' (text.drop (n + 1))).map (· + (n + 1)) := by
  have hshift : ∀ (x : Option Nat) (m : Nat),
      (x.map (· + (m + 1))).map (· + 1) = x.map (· + (m + 1 + 1)) := by
    intro x m
    cases x <;> rfl
  fun_induction closingBrace? honour depth quote before text generalizing n with
  | case1 => cases h
  | case2 depth before c rest q ih =>
    obtain ⟨m, hm, rfl⟩ := Option.map_eq_some_iff.mp h
    rw [closingBrace?, ih hm, hshift, List.drop_succ_cons]
  | case3 depth before rest ih =>
    obtain ⟨m, hm, rfl⟩ := Option.map_eq_some_iff.mp h
    have hrest := ih hm
    rw [Nat.add_right_comm depth 1 k] at hrest
    simp only [closingBrace?, if_true, hrest, hshift, List.drop_succ_cons]
  | case4 before rest hne =>
    cases h
    rw [Nat.zero_add]
    simp [closingBrace?]
  | case5 before rest depth hne ih =>
    obtain ⟨m, hm, rfl⟩ := Option.map_eq_some_iff.mp h
    rw [Nat.succ_add]
    simp only [closingBrace?, if_neg hne, if_true, ih hm, hshift, List.drop_succ_cons]
  | case6 depth before c rest hopen hclose hquote ih =>
    obtain ⟨m, hm, rfl⟩ := Option.map_eq_some_iff.mp h
    simp only [closingBrace?, if_neg hopen, if_neg hclose, if_pos hquote, ih hm, hshift,
      List.drop_succ_cons]
  | case7 depth before c rest hopen hclose hquote ih =>
    obtain ⟨m, hm, rfl⟩ := Option.map_eq_some_iff.mp h
    simp only [closingBrace?, if_neg hopen, if_neg hclose, if_neg hquote, ih hm, hshift,
      List.drop_succ_cons]

theorem closingBrace?_of_not_mem {q : Char} (h : q ∉ text) :
    closingBrace? honour depth (some q) before text = none := by
  induction text generalizing before with
  | nil => rfl
  | cons c rest ih =>
    obtain ⟨hne, hrest⟩ := not_or.mp fun hmem => h (List.mem_cons.mpr hmem)
    rw [closingBrace?, if_neg (Ne.symm hne), ih hrest, Option.map_none]

/-- Without quotes there is nothing to honour. -/
theorem closingBrace?_of_isQuote (h : ∀ c ∈ text, isQuote c = false) :
    closingBrace? true depth none before text = closingBrace? false depth none before text := by
  induction text generalizing depth before with
  | nil => rfl
  | cons c rest ih =>
    have hstarts : startsQuote (some before) c = false := by simp [startsQuote, h c (.head _)]
    have hrest : ∀ {depth}, closingBrace? true depth none c rest =
        closingBrace? false depth none c rest := ih fun d hd => h d (.tail _ hd)
    simp [closingBrace?, hstarts, hrest]

theorem Cuts.closingBrace?_eq_none {collected : List Char} {template : Template}
    (h : Cuts collected text template) (hquotes : ∀ c ∈ text, isQuote c = false) :
    closingBrace? true depth none before text = none := by
  induction h generalizing before with
  | nil => rfl
  | @block collected rest n segments hn h ih =>
    have hrest : ∀ c ∈ rest, isQuote c = false := fun c hc => hquotes c (.tail _ hc)
    have hclosing : closingBrace? true 0 none '{' rest = some n := by
      simpa [blockLength?, closingBrace?_of_isQuote hrest] using hn
    have hdeeper := closingBrace?_deeper hclosing depth
    rw [Nat.zero_add, ih fun c hc => hrest c (List.mem_of_mem_drop hc)] at hdeeper
    simp [closingBrace?, hdeeper]
  | @plain collected c rest segments hopen hclose h ih =>
    have hstarts : startsQuote (some before) c = false := by simp [startsQuote, hquotes c (.head _)]
    have hrest : closingBrace? true depth none c rest = none :=
      ih fun d hd => hquotes d (.tail _ hd)
    simp [closingBrace?, hopen, hclose, hstarts, hrest]

/-- A template without quotes moves no end of a block before it. -/
theorem Cuts.keepsEnd {collected : List Char} {template : Template}
    (h : Cuts collected more template) (hquotes : ∀ c ∈ more, isQuote c = false) (rest : List Char) :
    KeepsEnd more rest := by
  intro hrest
  refine closingBrace?_append_eq_none hrest nofun fun depth quote before hquote => ?_
  cases quote with
  | none => exact h.closingBrace?_eq_none hquotes
  | some q =>
    refine closingBrace?_of_not_mem fun hq => ?_
    cases (hquotes q hq).symm.trans (hquote q rfl)

/-- Two accepted templates put together have the segments of both exactly when no block of the first
one that is closed by counting braces is closed with respect for quotes once the second one follows.
This is so whenever the second one has no quotes. -/
theorem Template.parse_append {a b : String} {first second : Template} (hfirst : parse a = .ok first)
    (hsecond : parse b = .ok second) :
    (parse (a ++ b) = .ok (first.joined second) ↔
      ∀ rest ∈ openedBlocks a.toList, KeepsEnd b.toList rest) ∧
    ((∀ c ∈ b.toList, isQuote c = false) → parse (a ++ b) = .ok (first.joined second)) := by
  rw [parse_eq_ok_iff] at hfirst hsecond
  rw [parse_eq_ok_iff, String.toList_append]
  exact ⟨⟨hfirst.keepsEnd_of_append, hfirst.append hsecond⟩,
    fun hquotes => hfirst.append hsecond fun rest _ => hsecond.keepsEnd hquotes rest⟩

/-- The quote that keeps the block of the first template open is closed by the second one, whose own
braces then have no partners. -/
theorem Template.block_end_moved :
    parse "\x7b'\x7d" = .ok [.block "'"] ∧ parse "\x7b\x7b'\x7d\x7d" = .ok [.block "\x7b'\x7d"] ∧
      parse ("\x7b'\x7d" ++ "\x7b\x7b'\x7d\x7d") = .error (.unmatchedClose 7) ∧
      parse ("\x7b'\x7d" ++ "\x7b'\x7d") = .ok [.block "'\x7d\x7b'"] := by
  refine ⟨?_, ?_, ?_, ?_⟩ <;> cbv

/-- An open quote in the first template and two quotes in the second one, of another kind. -/
theorem Template.parse_append_of_apostrophe :
    let first : Template := [.literal "a ", .block "'"]
    let second : Template := [.literal "b ", .block "\"\x7d\""]
    parse "a \x7b'\x7d" = .ok first ∧ parse "b \x7b\"\x7d\"\x7d" = .ok second ∧
      parse ("a \x7b'\x7d" ++ "b \x7b\"\x7d\"\x7d") = .ok (first.joined second) := by
  intro first second
  have hfirst : parse "a \x7b'\x7d" = .ok first := by cbv
  have hsecond : parse "b \x7b\"\x7d\"\x7d" = .ok second := by cbv
  exact ⟨hfirst, hsecond, (parse_append hfirst hsecond).1.mpr (by decide +kernel)⟩

end QualityScript
