import QualityScript.Proofs.Syntax.Operands
import QualityScript.Proofs.Syntax.Braces

/-!
# Comparisons with a quoted text

An operand, two equal signs and a quoted text are read as just that comparison. Nothing in the quotes
cuts a block, so with a reference in front, bare or in a block of its own, the comparison is one leaf.
-/

namespace QualityScript

open Text Lexer Grammar

/-- The rest of a comparison of something with a quoted text. -/
def equalsText (s : String) : String := " == '" ++ s ++ "'"

theorem toList_equalsText (s : String) :
    (equalsText s).toList = ' ' :: '=' :: '=' :: ' ' :: '\'' :: (s.toList ++ ['\'']) := by
  simp [equalsText]

theorem stops_equalsText (s : String) : Stops (equalsText s).toList := by
  rw [toList_equalsText]
  exact .blank rfl _

theorem tokens_equalsText {s : String} (hs : '\'' ∉ s.toList) (readCall : CallReader) :
    tokens readCall (equalsText s).toList = .ok [.op (.compare .eq), .text s] := by
  have hquoted : takeToken readCall '\'' (s.toList ++ ['\'']) =
      .ok (.text s, (s.toList ++ ['\'']).length) := by
    change takeText '\'' (s.toList ++ ['\'']) = _
    have htake : (s.toList ++ ['\'']).take s.toList.length = s.toList := List.take_left
    simp only [takeText, quoteLength?_eq hs, htake, String.ofList_toList, List.length_append,
      List.length_singleton]
  have hlast : tokens readCall ('\'' :: (s.toList ++ ['\''])) = .ok [.text s] := by
    have hend : takeToken readCall '\'' ((s.toList ++ ['\'']) ++ []) =
        .ok (.text s, (s.toList ++ ['\'']).length) := by
      rw [List.append_nil]
      exact hquoted
    rw [← List.append_nil (s.toList ++ ['\'']), tokens_cons rfl hend, tokens]
    rfl
  have hequals : takeToken readCall '=' (['='] ++ ' ' :: '\'' :: (s.toList ++ ['\''])) =
      .ok (.op (.compare .eq), ['='].length) := rfl
  rw [toList_equalsText, tokens_blank rfl]
  refine (tokens_cons rfl hequals).trans ?_
  rw [tokens_blank rfl, hlast]
  rfl

namespace Expr

theorem parse_equalsText {text s : String} {t : Token} {e : Expr} (h : IsToken text.toList t)
    (he : operand? t = some e) (hs : '\'' ∉ s.toList) :
    parse (text ++ equalsText s) = .ok (.compare .eq e (.literal (.text s))) := by
  have htokens : ∀ readCall, tokens readCall (text ++ equalsText s).toList =
      .ok [t, .op (.compare .eq), .text s] := by
    intro readCall
    rw [String.toList_append, h readCall _ (stops_equalsText s), tokens_equalsText hs]
    rfl
  rw [parse_of_tokens htokens]
  cases t <;> cases he <;> rfl

end Expr

/-! ## The shape of the conditions -/

/-- A text that can stand in single quotes and has no braces. -/
structure IsQuotable (s : String) : Prop where
  quote : '\'' ∉ s.toList
  opening : '{' ∉ s.toList
  closing : '}' ∉ s.toList

theorem IsQuotable.hasBrace {s : String} (h : IsQuotable s) : hasBrace s = false := by
  simpa [QualityScript.hasBrace] using h.opening

/-- The condition that a quality equals a text. -/
def directCondition (name s : String) : String := "$" ++ name ++ equalsText s

/-- The same condition with the quality in a nested block. -/
def nestedCondition (name s : String) : String := "\x7b" ++ ("$" ++ name) ++ "\x7d" ++ equalsText s

variable {separator : Char} {before : Option Char} {name s : String}

theorem isPlain_of_mem_equals : ∀ c ∈ " == ".toList, ∀ before, IsPlain before c :=
  isPlain_of_all (by decide)

theorem toList_equalsText_append (s : String) :
    (equalsText s).toList = " == ".toList ++ '\'' :: (s.toList ++ ['\'']) := by
  simp [equalsText]

theorem closed_equalsText (hs : '\'' ∉ s.toList) (before : Option Char) :
    Closed [] none before (equalsText s).toList := by
  rw [toList_equalsText_append]
  exact .plain_append (.quote rfl (.of_quoted hs .nil)) isPlain_of_mem_equals

theorem skips_equalsText (hs : '\'' ∉ s.toList) (hseparator : separator ∉ " == ".toList)
    (before : Option Char) :
    Skips separator [] none before (equalsText s).toList [] (some '\'')
      (equalsText s).toList.length := by
  have hclosed := closed_equalsText hs before
  have hlength : (equalsText s).toList.length = " == ".toList.length + (s.toList.length + 2) := by
    rw [toList_equalsText_append]
    simp
    omega
  rw [hlength]
  rw [toList_equalsText_append] at hclosed ⊢
  have hfront := hclosed.skips_plain isPlain_of_mem_equals hseparator
  have hquoted := hfront.closed
  rw [List.drop_left] at hquoted
  refine hfront.trans ?_
  rw [List.drop_left]
  exact skips_quoted hquoted rfl rfl hs

theorem topLevelOffsets_append_equalsText {front : List Char} (hs : '\'' ∉ s.toList)
    (hseparator : separator ∉ " == ".toList)
    (hfront : Skips separator [] none none (front ++ (equalsText s).toList) [] before
      front.length) :
    topLevelOffsets separator (front ++ (equalsText s).toList) = [] := by
  have hall := hfront.trans (by
    rw [List.drop_left]
    exact skips_equalsText hs hseparator before)
  refine (hall.separators 0).trans ?_
  rw [List.drop_eq_nil_of_le (by simp)]
  rfl

theorem isInert_of_mem_reference (hname : IsName name) :
    ∀ c ∈ ("$" ++ name).toList, IsInert c := by
  rw [toList_reference]
  intro c hc
  rcases List.mem_cons.mp hc with rfl | hc
  · constructor <;> decide
  · exact .of_isIdentChar (hname.ident c hc)

theorem isPlain_of_mem_reference (hname : IsName name) :
    ∀ c ∈ ("$" ++ name).toList, ∀ before, IsPlain before c :=
  fun c hc => (isInert_of_mem_reference hname c hc).isPlain

theorem not_mem_reference (hname : IsName name) (hseparator : separator = '|' ∨ separator = ':') :
    separator ∉ ("$" ++ name).toList := by
  rw [toList_reference]
  intro hmem
  rcases List.mem_cons.mp hmem with heq | hmem
  · rcases hseparator with rfl | rfl <;> cases heq
  · have hident := hname.ident separator hmem
    rcases hseparator with rfl | rfl <;> exact absurd hident (by decide)

theorem not_mem_equals (hseparator : separator = '|' ∨ separator = ':') :
    separator ∉ " == ".toList := by
  rcases hseparator with rfl | rfl <;> decide

theorem isClosed_reference (hname : IsName name) : IsClosed ("$" ++ name).toList := by
  rw [isClosed_iff_closed]
  have hclosed : Closed [] none none (("$" ++ name).toList ++ []) :=
    .plain_append .nil (isPlain_of_mem_reference hname)
  rwa [List.append_nil] at hclosed

theorem getLast?_equalsText (front : List Char) (s : String) :
    (front ++ (equalsText s).toList).getLast? = some '\'' := by
  have hsnoc : front ++ (equalsText s).toList = (front ++ " == '".toList ++ s.toList) ++ ['\''] := by
    simp [equalsText]
  rw [hsnoc, List.getLast?_concat]

/-- A text of inert characters without separators is a leaf unless it is an assignment. -/
theorem classify_of_inert {text : String} (h : ∀ c ∈ text.toList, IsInert c)
    (hne : text.toList ≠ []) (hassign : splitAssignment? text.toList = none)
    (hseparators : ∀ separator, separator = '|' ∨ separator = ':' → separator ∉ text.toList) :
    Block.classify text = .leaf text := by
  have hplain : ∀ c ∈ text.toList, ∀ before, IsPlain before c := fun c hc => (h c hc).isPlain
  have hclosed : Closed [] none none (text.toList ++ []) := .plain_append .nil hplain
  apply Block.classify_eq_leaf (trim_eq_self_of_forall fun c hc => (h c hc).blank) hne hassign
  intro separator hseparator
  have hnone := (hclosed.skips_plain hplain (hseparators separator hseparator)).separators 0
  rw [List.drop_left, List.append_nil] at hnone
  exact hnone

theorem classify_reference (hname : IsName name) :
    Block.classify ("$" ++ name) = .leaf ("$" ++ name) := by
  refine classify_of_inert (isInert_of_mem_reference hname) ?_ ?_ fun _ => not_mem_reference hname
  · rw [toList_reference]
    exact List.cons_ne_nil _ _
  · rw [toList_reference]
    rfl

theorem trim_append_equalsText {front : String} {c : Char} {rest : List Char}
    (hfront : front.toList = c :: rest) (hblank : isBlank c = false) (s : String) :
    trim (front ++ equalsText s).toList = (front ++ equalsText s).toList := by
  rw [String.toList_append]
  apply trim_eq_self
  · rw [hfront]
    rintro d ⟨⟩
    exact hblank
  · rw [getLast?_equalsText]
    rintro d ⟨⟩
    rfl

/-- A front that is passed by the scan for separators makes a leaf with the rest of a comparison. -/
theorem classify_append_equalsText {front : String} {c : Char} {rest : List Char}
    (hs : '\'' ∉ s.toList) (hfront : front.toList = c :: rest) (hblank : isBlank c = false)
    (hat : c ≠ '@')
    (hskips : ∀ separator, separator = '|' ∨ separator = ':' →
      ∃ before, Skips separator [] none none (front.toList ++ (equalsText s).toList) [] before
        front.toList.length) :
    Block.classify (front ++ equalsText s) = .leaf (front ++ equalsText s) := by
  have hchars : (front ++ equalsText s).toList = front.toList ++ (equalsText s).toList :=
    String.toList_append
  apply Block.classify_eq_leaf
  · exact trim_append_equalsText hfront hblank s
  · rw [hchars, hfront]
    exact List.cons_ne_nil _ _
  · rw [hchars, hfront, List.cons_append]
    unfold splitAssignment?
    split
    · next heq =>
      cases heq
      exact absurd rfl hat
    · rfl
  · intro separator hseparator
    obtain ⟨before, hpassed⟩ := hskips separator hseparator
    rw [hchars]
    exact topLevelOffsets_append_equalsText hs (not_mem_equals hseparator) hpassed

theorem classify_directCondition (hname : IsName name) (hs : '\'' ∉ s.toList) :
    Block.classify (directCondition name s) = .leaf (directCondition name s) := by
  refine classify_append_equalsText hs (toList_reference name) rfl (by decide) ?_
  intro separator hseparator
  have hclosed : Closed [] none none (("$" ++ name).toList ++ (equalsText s).toList) :=
    .plain_append (closed_equalsText hs _) (isPlain_of_mem_reference hname)
  exact ⟨_, hclosed.skips_plain (isPlain_of_mem_reference hname)
    (not_mem_reference hname hseparator)⟩

theorem toList_nestedReference (name : String) : ("\x7b" ++ ("$" ++ name) ++ "\x7d").toList =
    '{' :: (("$" ++ name).toList ++ ['}']) := by
  simp

theorem classify_nestedCondition (hname : IsName name) (hs : IsQuotable s) :
    Block.classify (nestedCondition name s) = .leaf (nestedCondition name s) := by
  refine classify_append_equalsText hs.quote (toList_nestedReference name) rfl (by decide) ?_
  intro separator hseparator
  have hafter : Closed [] none (some '}') (equalsText s).toList := closed_equalsText hs.quote _
  have hinside : Closed ['{'] none (some '{')
      (("$" ++ name).toList ++ '}' :: (equalsText s).toList) :=
    .plain_append (.closing rfl rfl hafter) (isPlain_of_mem_reference hname)
  have hname' := hinside.skips_plain (isPlain_of_mem_reference hname)
    (not_mem_reference hname hseparator)
  have hclosing (before : Option Char) :
      Skips separator ['{'] none before ('}' :: (equalsText s).toList) [] (some '}') 1 :=
    (Skips.refl hafter).cons (separatorsFrom_closing rfl 1)
  have hblock := hname'.trans (by
    rw [List.drop_left]
    exact hclosing _)
  have hall : Skips separator [] none none
      ('{' :: (("$" ++ name).toList ++ '}' :: (equalsText s).toList)) [] (some '}')
      (("$" ++ name).toList.length + 1 + 1) := hblock.cons (separatorsFrom_opening rfl 0)
  refine ⟨some '}', ?_⟩
  rw [toList_nestedReference]
  simpa using hall

theorem scan_nestedCondition (hname : IsName name) (hs : IsQuotable s) (quotesKept : Bool) :
    scan quotesKept (nestedCondition name s) =
      ([.block ("$" ++ name), .literal (equalsText s)], []) := by
  have hopen : '{' ∉ (equalsText s).toList := by
    simp [equalsText, hs.opening]
  have hclose : '}' ∉ (equalsText s).toList := by
    simp [equalsText, hs.closing]
  rw [nestedCondition, scan_block_append (isClosed_reference hname) hopen hclose, literalPart,
    if_neg (by simp [toList_equalsText]), List.reverse_reverse, String.ofList_toList]

theorem quote_mem_trimmed (front s : String) : '\'' ∈ (trimmed (front ++ equalsText s)).toList := by
  rw [trimmed, String.toList_ofList]
  exact mem_trim_of_mem (by simp [equalsText]) rfl

theorem isEmpty_trimmed (front s : String) :
    (trimmed (front ++ equalsText s)).isEmpty = false := by
  rw [Bool.eq_false_iff]
  intro hempty
  have hmem := quote_mem_trimmed front s
  rw [String.isEmpty_iff.mp hempty] at hmem
  cases hmem

theorem blockContent?_nestedCondition (hname : IsName name) (hs : IsQuotable s) :
    Template.blockContent? (nestedCondition name s) = none := by
  have hblank := isEmpty_trimmed "" s
  rw [String.empty_append] at hblank
  simp [Template.blockContent?, Template.parse, scan_nestedCondition hname hs,
    Template.singleBlock?, Template.singleBlock?.isBlankLiteral, hblank]

theorem hasBrace_reference (hname : IsName name) : hasBrace ("$" ++ name) = false := by
  have hmem : '{' ∉ ("$" ++ name).toList := by
    intro hmem
    cases (isInert_of_mem_reference hname '{' hmem).opening
  simpa [hasBrace] using hmem

theorem trimmed_reference (hname : IsName name) : trimmed ("$" ++ name) = "$" ++ name := by
  rw [trimmed, trim_eq_self_of_forall fun c hc => (isInert_of_mem_reference hname c hc).blank,
    String.ofList_toList]

end QualityScript
