import QualityScript.Text.Quotes

/-!
# Templates

A template is a text with blocks in braces. Blocks nest, and the contents of the outermost ones are
kept as they stand. The brace that closes a block is found with respect for quoted texts, which may
hold braces of their own; if a quote stays open that way, all braces are counted instead.

A text with braces that do not pair is still a template: a stray closing brace is plain text, and so
is everything from a brace on that is never closed. Both are reported with the number of characters
before the brace.
-/

namespace QualityScript

open Text

/-- What is wrong with the braces of a text. -/
inductive BraceError where
  | unclosed (offset : Nat)
  | unmatchedClose (offset : Nat)
  deriving DecidableEq, Repr

namespace BraceError

def offset : BraceError → Nat
  | unclosed n | unmatchedClose n => n

def message : BraceError → String
  | unclosed n => "unclosed brace at offset " ++ toString n
  | unmatchedClose n => "unmatched closing brace at offset " ++ toString n

end BraceError

inductive Segment where
  /-- Plain text. -/
  | literal (text : String)
  /-- The contents of a block, without its braces. -/
  | block (content : String)
  deriving DecidableEq, Repr

/-- A text cut into plain parts and blocks. -/
abbrev Template := List Segment

/-- The number of characters up to the brace that closes `depth + 1` open ones. With `honour`, a
quoted text is passed over and must be closed; `quote` is the quote that is open now. -/
def closingBrace? (honour : Bool) (depth : Nat) (quote : Option Char) (before : Char) :
    List Char → Option Nat
  | [] => none
  | c :: rest =>
    match quote with
    | some q => (closingBrace? honour depth (if c = q then none else some q) c rest).map (· + 1)
    | none =>
      if c = '{' then (closingBrace? honour (depth + 1) none c rest).map (· + 1)
      else if c = '}' then
        match depth with
        | 0 => some 0
        | depth + 1 => (closingBrace? honour depth none c rest).map (· + 1)
      else if honour && startsQuote (some before) c then
        (closingBrace? honour depth (some c) c rest).map (· + 1)
      else (closingBrace? honour depth none c rest).map (· + 1)

/-- The length of a block whose opening brace stands directly before the text. -/
def blockLength? (text : List Char) : Option Nat :=
  closingBrace? true 0 none '{' text <|> closingBrace? false 0 none '{' text

theorem closingBrace?_lt {honour : Bool} {depth : Nat} {quote : Option Char} {before : Char}
    {text : List Char} {n : Nat} (h : closingBrace? honour depth quote before text = some n) :
    n < text.length := by
  induction text generalizing depth quote before n with
  | nil => simp [closingBrace?] at h
  | cons c rest ih =>
    have step {d : Nat} {q : Option Char}
        (h : (closingBrace? honour d q c rest).map (· + 1) = some n) : n < (c :: rest).length := by
      obtain ⟨m, hm, rfl⟩ := Option.map_eq_some_iff.mp h
      have := ih hm
      simp only [List.length_cons]
      omega
    unfold closingBrace? at h
    split at h
    · exact step h
    · split at h
      · exact step h
      · split at h
        · split at h
          · simp at h; subst h; simp
          · exact step h
        · split at h <;> exact step h

theorem blockLength?_lt {text : List Char} {n : Nat} (h : blockLength? text = some n) :
    n < text.length := by
  unfold blockLength? at h
  cases h₁ : closingBrace? true 0 none '{' text with
  | some m => simp [h₁] at h; subst h; exact closingBrace?_lt h₁
  | none => simp [h₁] at h; exact closingBrace?_lt h

/-- The plain part collected so far, if it is not empty. -/
def literalPart (collected : List Char) : Template :=
  if collected.isEmpty then [] else [.literal (String.ofList collected.reverse)]

/-- Cuts a text. `offset` characters and last `before` stand in front of it; `collected` is the plain
part that ends there, last character first. With `quotesKept`, quoted texts between blocks are plain
text as a whole. -/
def scanFrom (quotesKept : Bool) (offset : Nat) (before : Option Char) (collected : List Char) :
    List Char → Template × List BraceError
  | [] => (literalPart collected, [])
  | c :: rest =>
    if c = '{' then
      match h : blockLength? rest with
      | some n =>
        have := blockLength?_lt h
        let (segments, errors) :=
          scanFrom quotesKept (offset + n + 2) (some '}') [] (rest.drop (n + 1))
        (literalPart collected ++ .block (String.ofList (rest.take n)) :: segments, errors)
      | none => (literalPart ((c :: rest).reverse ++ collected), [.unclosed offset])
    else
      match h : if quotesKept && startsQuote before c then quoteLength? c rest else none with
      | some n =>
        have : n < rest.length := by
          split at h
          · exact quoteLength?_lt h
          · cases h
        scanFrom quotesKept (offset + n + 2) (some c)
          ((c :: rest.take (n + 1)).reverse ++ collected) (rest.drop (n + 1))
      | none =>
        let (segments, errors) := scanFrom quotesKept (offset + 1) (some c) (c :: collected) rest
        (segments, if c = '}' then .unmatchedClose offset :: errors else errors)
termination_by text => text.length
decreasing_by
  all_goals simp only [List.length_cons, List.length_drop]; omega

/-- Cuts a text into plain parts and blocks, and tells which braces have no partner. -/
def scan (quotesKept : Bool) (text : String) : Template × List BraceError :=
  scanFrom quotesKept 0 none [] text.toList

namespace Template

def parseLenient (text : String) : Template × List BraceError := scan false text

/-- The template of a text whose braces all pair. -/
def parse (text : String) : Except BraceError Template :=
  match scan false text with
  | (_, error :: _) => .error error
  | (template, []) => .ok template

def blocks (template : Template) : List String :=
  template.filterMap fun
    | .block content => some content
    | .literal _ => none

/-- The contents of the only block of a template that has nothing else but blanks. -/
def singleBlock? : Template → Option String
  | [] => none
  | .block content :: rest => if rest.all isBlankLiteral then some content else none
  | .literal text :: rest => if (trimmed text).isEmpty then singleBlock? rest else none
where
  /-- A plain part of blanks only. -/
  isBlankLiteral : Segment → Bool
    | .literal text => (trimmed text).isEmpty
    | .block _ => false

/-- The contents of a text that is one block and else blank. -/
def blockContent? (text : String) : Option String :=
  match parse text with
  | .ok template => singleBlock? template
  | .error _ => none

end Template

/-- Whether a text has an opening brace at all. -/
def hasBrace (text : String) : Bool := text.toList.contains '{'

/-- Whether the braces of a text all pair and there is a block. -/
def hasBlocks (text : String) : Bool :=
  match Template.parse text with
  | .ok template => !(Template.blocks template).isEmpty
  | .error _ => false

end QualityScript
