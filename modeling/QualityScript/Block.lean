import QualityScript.Text.Quotes

/-!
# Shapes of blocks

The contents of a block are an assignment `@name = …`, a chain of conditions
`condition : result | … | otherwise`, a choice `A | B | C`, or one expression. Shapes are told apart
on the text alone, so nested blocks stay closed: a separator splits a text only outside brackets of
every kind, nested blocks and quoted texts. One depth serves all three kinds of brackets; a stray
closing one is ignored at depth zero. A quote that is never closed encloses nothing. A doubled `||` is
an operator and no separator.
-/

namespace QualityScript

open Text

def isOpening (c : Char) : Bool := c == '{' || c == '[' || c == '('

def isClosing (c : Char) : Bool := c == '}' || c == ']' || c == ')'

/-- Whether a bar between these two characters is half of a doubled one. -/
def isDoubledBar (separator : Char) (before after : Option Char) : Bool :=
  separator == '|' && (after == some '|' || before == some '|')

/-- The offsets of a separator at the top level, `offset` standing for the first character. `quote`
is the quote that is open now. -/
def separatorsFrom (separator : Char) (depth : Nat) (quote before : Option Char) (offset : Nat) :
    List Char → List Nat
  | [] => []
  | c :: rest =>
    match quote with
    | some q =>
      separatorsFrom separator depth (if c = q then none else some q) (some c) (offset + 1) rest
    | none =>
      if isOpening c then separatorsFrom separator (depth + 1) none (some c) (offset + 1) rest
      else if isClosing c then separatorsFrom separator (depth - 1) none (some c) (offset + 1) rest
      else if startsQuote before c then
        separatorsFrom separator depth (if rest.contains c then some c else none) (some c)
          (offset + 1) rest
      else if c = separator && depth == 0 && !isDoubledBar separator before rest.head? then
        offset :: separatorsFrom separator depth none (some c) (offset + 1) rest
      else separatorsFrom separator depth none (some c) (offset + 1) rest

def topLevelOffsets (separator : Char) (text : List Char) : List Nat :=
  separatorsFrom separator 0 none none 0 text

/-- The pieces between the given offsets; `start` is the offset of the first character. -/
def cutAt (start : Nat) : List Nat → List Char → List (List Char)
  | [], text => [text]
  | offset :: offsets, text =>
    text.take (offset - start) :: cutAt (offset + 1) offsets (text.drop (offset - start + 1))

/-- The pieces of a text between top-level separators. -/
def splitTopLevel (separator : Char) (text : List Char) : List (List Char) :=
  cutAt 0 (topLevelOffsets separator text) text

/-- The text before and after the first top-level separator. -/
def breakTopLevel? (separator : Char) (text : List Char) : Option (List Char × List Char) :=
  (topLevelOffsets separator text).head?.map fun offset =>
    (text.take offset, text.drop (offset + 1))

theorem splitTopLevel_nil (separator : Char) : splitTopLevel separator [] = [[]] := rfl

/-- Every offset is at least the first one and within the text. -/
theorem separatorsFrom_bounds {separator : Char} {depth : Nat} {quote before : Option Char}
    {offset : Nat} {text : List Char} {n : Nat}
    (h : n ∈ separatorsFrom separator depth quote before offset text) :
    offset ≤ n ∧ n < offset + text.length := by
  induction text generalizing depth quote before offset with
  | nil => simp [separatorsFrom] at h
  | cons c rest ih =>
    have step {d : Nat} {q b : Option Char}
        (h : n ∈ separatorsFrom separator d q b (offset + 1) rest) :
        offset ≤ n ∧ n < offset + (c :: rest).length := by
      have := ih h
      simp only [List.length_cons]
      omega
    unfold separatorsFrom at h
    split at h
    · exact step h
    · repeat' split at h
      all_goals first
        | exact step h
        | (rcases List.mem_cons.mp h with rfl | h
           · simp only [List.length_cons]; omega
           · exact step h)

/-- One link of a chain. Without a condition it always holds. -/
structure Branch where
  condition : Option String
  result : String
  deriving DecidableEq, Repr

inductive Block where
  | empty
  /-- `@name = expression` -/
  | assign (name expression : String)
  /-- `c1 : r1 | c2 : r2 | otherwise` -/
  | conditional (branches : List Branch)
  /-- `A | B | C` -/
  | choice (options : List String)
  /-- One expression. -/
  | leaf (source : String)
  deriving DecidableEq, Repr

/-- A part of a block without blanks at its ends. -/
def partText (part : List Char) : String := String.ofList (trim part)

/-- The name and the expression of an assignment; `==` compares and assigns nothing. -/
def splitAssignment? : List Char → Option (List Char × List Char)
  | '@' :: text =>
    match spanIdent text with
    | ([], _) => none
    | (name, rest) =>
      match trimStart rest with
      | '=' :: '=' :: _ => none
      | '=' :: expression => some (name, expression)
      | _ => none
  | _ => none

namespace Branch

/-- Reads one link: what stands before the first top-level colon is its condition. -/
def ofPart (part : List Char) : Branch :=
  match breakTopLevel? ':' part with
  | some (condition, result) => ⟨some (partText condition), partText result⟩
  | none => ⟨none, partText part⟩

end Branch

namespace Block

/-- The shape of contents that are not blank and have no blanks at their ends. -/
def ofChars (text : List Char) : Block :=
  match splitAssignment? text with
  | some (name, expression) => assign (String.ofList name) (partText expression)
  | none =>
    let parts := splitTopLevel '|' text
    if parts.any fun part => !(topLevelOffsets ':' part).isEmpty then
      conditional (parts.map Branch.ofPart)
    else if parts.length > 1 then choice (parts.map partText)
    else leaf (String.ofList text)

def classify (content : String) : Block :=
  let text := trim content.toList
  if text.isEmpty then empty else ofChars text

end Block

/-- Whether the characters from `c` on look like script. A `!` negates only what follows it
directly. -/
def isScriptMark (c : Char) (next : Option Char) : Bool :=
  "$#@%=<>&~;".toList.contains c ||
    (c == '!' && (next == some '=' || next == some '$' || next == some '('))

/-- Whether a text that is no expression was probably meant as one, rather than as plain words. -/
def looksLikeScript : List Char → Bool
  | [] => false
  | c :: rest => isScriptMark c rest.head? || looksLikeScript rest

end QualityScript
