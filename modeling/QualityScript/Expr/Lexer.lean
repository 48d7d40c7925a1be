import QualityScript.Expr.Token
import QualityScript.Block

/-!
# From text to tokens

A token is read from the first character that is not blank and as many of the following ones as
belong to it. How the arguments of a call are read is a parameter, because they hold expressions of
their own.
-/

namespace QualityScript

open Text Number

namespace Token

def pairOp? : Char → Char → Option Op
  | '>', '>' => some (.challenge .high)
  | '<', '<' => some (.challenge .low)
  | '>', '<' => some (.challenge .near)
  | '<', '>' => some (.challenge .far)
  | '>', '=' => some (.compare .ge)
  | '<', '=' => some (.compare .le)
  | '=', '=' => some (.compare .eq)
  | '!', '=' => some (.compare .ne)
  | '+', '=' => some (.change .add)
  | '-', '=' => some (.change .subtract)
  | '+', '+' => some (.change .increment)
  | '-', '-' => some (.change .decrement)
  | '&', '&' => some .and
  | '|', '|' => some .or
  | _, _ => none

def single? : Char → Option Token
  | '>' => some (.op (.compare .gt))
  | '<' => some (.op (.compare .lt))
  | '=' => some (.op (.change .set))
  | '+' => some (.op (.arith .add))
  | '-' => some (.op (.arith .sub))
  | '*' => some (.op (.arith .mul))
  | '/' => some (.op (.arith .div))
  | '!' => some (.op .not)
  | ',' => some .comma
  | ';' => some .semicolon
  | '~' => some .tilde
  | '(' => some .openParen
  | ')' => some .closeParen
  | _ => none

/-- The number of characters before the square bracket that closes the one before the text. Square
brackets, braces and quoted texts nest; the bracket must not be closed by a brace. -/
def closingBracket? (depth : Nat) (quote : Option Char) (before : Char) : List Char → Option Nat
  | [] => none
  | c :: rest =>
    match quote with
    | some q => (closingBracket? depth (if c = q then none else some q) c rest).map (· + 1)
    | none =>
      if c = '[' ∨ c = '{' then (closingBracket? (depth + 1) none c rest).map (· + 1)
      else if c = ']' ∨ c = '}' then
        match depth with
        | 0 => if c = ']' then some 0 else none
        | depth + 1 => (closingBracket? depth none c rest).map (· + 1)
      else if startsQuote (some before) c && rest.contains c then
        (closingBracket? depth (some c) c rest).map (· + 1)
      else (closingBracket? depth none c rest).map (· + 1)

/-- The text in the square brackets at the start of a text. -/
def bracketed? (text : List Char) : Option (List Char) :=
  (closingBracket? 0 none '[' text).map fun n => text.take n

end Token

namespace Notes

/-- Reads one entry `key: value`; an unknown key says nothing. -/
def add (notes : Notes) (entry : List Char) : Notes :=
  if entry.contains ':' then
    let key := partText (entry.takeWhile (· ≠ ':'))
    let value := partText ((entry.dropWhile (· ≠ ':')).drop 1)
    if key = "desc" ∨ key = "description" then { notes with description := some value }
    else if key = "source" then { notes with source := some value }
    else notes
  else notes

/-- Reads notes separated by commas; a later note replaces an earlier one. -/
def ofChars (text : List Char) : Notes := (splitTopLevel ',' text).foldl add none

end Notes

namespace Lexer

/-- Reads the arguments of the call with a name. -/
abbrev CallReader := String → List Char → Except ParseError Call

/-- A token together with the number of characters that it takes after its first. -/
abbrev Taken := Except ParseError (Token × Nat)

def takeText (q : Char) (rest : List Char) : Taken :=
  match quoteLength? q rest with
  | some n => .ok (.text (String.ofList (rest.take n)), n + 1)
  | none => .error (.unterminated .text)

/-- The number that digits spell: a word where it fits one. -/
def wholeNumber (digits : List Char) : Token :=
  let n := natOfDigits digits
  if (n : Int) ≤ maxWord then .int (Int64.ofNat n) else .float (floatOfDecimal n 0)

/-- A number. A point belongs to it only if a digit follows. -/
def takeNumber (text : List Char) : Token × Nat :=
  let (whole, rest) := spanDigits text
  match rest with
  | '.' :: fractionText =>
    match spanDigits fractionText with
    | ([], _) => (wholeNumber whole, whole.length - 1)
    | (fraction, _) =>
      (.float (floatOfDecimal (natOfDigits (whole ++ fraction)) (-fraction.length)),
        whole.length + fraction.length)
  | _ => (wholeNumber whole, whole.length - 1)

/-- A reference and the notes in square brackets after it. -/
def takeRef (marker : Char) (rest : List Char) : Taken :=
  match Reference.span? (marker :: rest) with
  | none => .error (.unexpectedChar marker)
  | some (reference, '[' :: after) =>
    match Token.bracketed? after with
    | some notes =>
      .ok (.ref reference (Notes.ofChars notes), rest.length - after.length + notes.length + 1)
    | none => .error (.unterminated .notes)
  | some (reference, after) => .ok (.ref reference .none, rest.length - after.length)

def takeAlias (rest : List Char) : Taken :=
  match spanIdent rest with
  | ([], _) => .error (.unexpectedChar '@')
  | (name, _) => .ok (.aliasName (String.ofList name), name.length)

/-- A call, or a percent sign where no letter follows. -/
def takePercent (readCall : CallReader) (rest : List Char) : Taken :=
  if rest.head?.any isLetter then
    let (name, after) := spanIdent rest
    match after with
    | '[' :: after =>
      match Token.bracketed? after with
      | some arguments =>
        (readCall (String.ofList name) arguments).map fun call =>
          (.call call, name.length + arguments.length + 2)
      | none => .error (.unterminated .call)
    | _ => .error (.badArguments (String.ofList name))
  else .ok (.percent, 0)

def takeOp (c : Char) (rest : List Char) : Taken :=
  match rest.head?.bind (Token.pairOp? c) with
  | some op => .ok (.op op, 1)
  | none =>
    match Token.single? c with
    | some token => .ok (token, 0)
    | none => .error (.unexpectedChar c)

def takeToken (readCall : CallReader) (c : Char) (rest : List Char) : Taken :=
  if isQuote c then takeText c rest
  else if c.isDigit || (c == '.' && rest.head?.any Char.isDigit) then .ok (takeNumber (c :: rest))
  else if c = '$' ∨ c = '#' then takeRef c rest
  else if c = '@' then takeAlias rest
  else if c = '%' then takePercent readCall rest
  else if isLetter c || c == '_' then
    .ok (.word (String.ofList (c :: (spanIdent rest).1)), (spanIdent rest).1.length)
  else takeOp c rest

def tokens (readCall : CallReader) : List Char → Except ParseError (List Token)
  | [] => .ok []
  | c :: rest =>
    if isBlank c then tokens readCall rest
    else
      match takeToken readCall c rest with
      | .error e => .error e
      | .ok (token, taken) => (tokens readCall (rest.drop taken)).map (token :: ·)
termination_by text => text.length
decreasing_by
  · simp
  · simp only [List.length_drop, List.length_cons]; omega

end Lexer

end QualityScript
