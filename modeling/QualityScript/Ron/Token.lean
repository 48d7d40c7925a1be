import QualityScript.Number.Text

/-!
# Tokens of object notation

Content, settings and saved games are files in RON, the object notation whose records are written
`Name(field: value, …)`.

Blanks and comments may stand between all parts; block comments nest. A name is plain, or raw after
`r#`. Texts stand in double quotes with escapes, or raw between `r"` and `"` with any number of `#`
around. Whole numbers are decimal, or hexadecimal, octal or binary after `0x`, `0o` or `0b`, with `_`
between digits. Each reader takes its token from the start of a text and gives what follows it.
-/

namespace QualityScript

/-- The text of a file, none if it cannot be read. -/
abbrev FileText := Option String

def unreadableCause : String := "No such file or directory (os error 2)"

def unreadableMessage : String := "IO error: " ++ unreadableCause

/-- What is said of a file that is no RON of the wanted shape. -/
def malformedMessage : String := "RON deserialization error"

end QualityScript

namespace QualityScript.Ron

open Number

/-! ## Characters -/

def isBlank (c : Char) : Bool := c == ' ' || c == '\n' || c == '\t' || c == '\r'

def isNameStart (c : Char) : Bool := c.isAlpha || c == '_'

def isNameChar (c : Char) : Bool := c.isAlphanum || c == '_'

def isRawNameChar (c : Char) : Bool := isNameChar c || c == '.' || c == '+' || c == '-'

def hexDigit? (c : Char) : Option Nat :=
  if c.isDigit then some (c.toNat - '0'.toNat)
  else if 'a' ≤ c ∧ c ≤ 'f' then some (c.toNat - 'a'.toNat + 10)
  else if 'A' ≤ c ∧ c ≤ 'F' then some (c.toNat - 'A'.toNat + 10)
  else none

/-- A character in the spelling of a whole number, whatever its base. -/
def isWholeChar (c : Char) : Bool := (hexDigit? c).isSome || c == '_'

def isFloatChar (c : Char) : Bool :=
  c.isDigit || c == '.' || c == 'e' || c == 'E' || c == '+' || c == '-'

/-! ## Blanks and fixed parts -/

/-- Where a reader of blanks is. -/
inductive Gap where
  | between
  | lineComment
  | blockComment (depth : Nat)

/-- What follows blanks and comments, if every comment is well formed. -/
def skipIn : Gap → List Char → Option (List Char)
  | .between, [] => some []
  | .between, '/' :: '/' :: rest => skipIn .lineComment rest
  | .between, '/' :: '*' :: rest => skipIn (.blockComment 0) rest
  | .between, '/' :: _ => none
  | .between, c :: rest => if isBlank c then skipIn .between rest else some (c :: rest)
  | .lineComment, [] => some []
  | .lineComment, c :: rest => skipIn (if c = '\n' then .between else .lineComment) rest
  | .blockComment _, [] => none
  | .blockComment depth, '/' :: '*' :: rest => skipIn (.blockComment (depth + 1)) rest
  | .blockComment 0, '*' :: '/' :: rest => skipIn .between rest
  | .blockComment (depth + 1), '*' :: '/' :: rest => skipIn (.blockComment depth) rest
  | .blockComment depth, _ :: rest => skipIn (.blockComment depth) rest

def skip (text : List Char) : Option (List Char) := skipIn .between text

/-- What follows a fixed part. -/
def dropPart? (part : String) (text : List Char) : Option (List Char) :=
  if part.toList.isPrefixOf text then some (text.drop part.length) else none

/-- What follows a fixed part that no character of a name may continue. -/
def dropWord? (word : String) (text : List Char) : Option (List Char) :=
  (dropPart? word text).filter fun rest => !rest.head?.any isNameChar

/-- Whether a comma stands between here and the next token, and that token. -/
def comma? (text : List Char) : Option (Bool × List Char) := do
  match ← skip text with
  | ',' :: rest => return (true, ← skip rest)
  | rest => return (false, rest)

/-- A name. A plain one must not be followed by characters that only a raw one may hold. -/
def name? (text : List Char) : Option (String × List Char) :=
  match text with
  | 'r' :: '"' :: _ => none
  | 'r' :: '#' :: rest =>
    match rest.takeWhile isRawNameChar with
    | [] => none
    | name => some (String.ofList name, rest.dropWhile isRawNameChar)
  | c :: rest =>
    if isNameStart c then
      let after := rest.dropWhile isNameChar
      if after.head?.any isRawNameChar then none
      else some (String.ofList (c :: rest.takeWhile isNameChar), after)
    else none
  | [] => none

/-! ## Texts -/

def hexValue? (digits : List Char) : Option Nat :=
  digits.foldlM (fun n c => (hexDigit? c).map (16 * n + ·)) 0

def charOf? (code : Nat) : Option Char :=
  if code.isValidChar then some (Char.ofNat code) else none

/-- The character that an escape after a backslash stands for, and how long the escape is. -/
def escape? : List Char → Option (Char × Nat)
  | '\'' :: _ => some ('\'', 1)
  | '"' :: _ => some ('"', 1)
  | '\\' :: _ => some ('\\', 1)
  | 'n' :: _ => some ('\n', 1)
  | 'r' :: _ => some ('\r', 1)
  | 't' :: _ => some ('\t', 1)
  | '0' :: _ => some ('\x00', 1)
  | 'x' :: a :: b :: _ => ((hexValue? [a, b]).bind charOf?).map fun c => (c, 3)
  | 'u' :: '{' :: rest =>
    let digits := rest.takeWhile (· ≠ '}')
    if digits.isEmpty || digits.length > 6 || digits.length = rest.length then none
    else ((hexValue? digits).bind charOf?).map fun c => (c, digits.length + 3)
  | _ => none

/-- A text up to its closing quote; the first `passed` characters belong to an escape that is read
already. -/
def quotedFrom? : (passed : Nat) → List Char → Option (List Char × List Char)
  | _, [] => none
  | passed + 1, _ :: rest => quotedFrom? passed rest
  | 0, c :: rest =>
    if c = '"' then some ([], rest)
    else if c = '\\' then
      match escape? rest with
      | some (c, length) => (quotedFrom? length rest).map fun (cs, rest) => (c :: cs, rest)
      | none => none
    else (quotedFrom? 0 rest).map fun (cs, rest) => (c :: cs, rest)

/-- A raw text up to a quote with that many `#` after it. -/
def rawFrom? (hashes : Nat) : List Char → Option (List Char × List Char)
  | [] => none
  | c :: rest =>
    if c = '"' ∧ rest.take hashes = List.replicate hashes '#' then some ([], rest.drop hashes)
    else (rawFrom? hashes rest).map fun (cs, rest) => (c :: cs, rest)

def raw? (text : List Char) : Option (List Char × List Char) :=
  let hashes := (text.takeWhile (· = '#')).length
  match text.drop hashes with
  | '"' :: rest => rawFrom? hashes rest
  | _ => none

def text? (text : List Char) : Option (String × List Char) :=
  let content := match text with
    | '"' :: rest => quotedFrom? 0 rest
    | 'r' :: rest => raw? rest
    | _ => none
  content.map fun (cs, rest) => (String.ofList cs, rest)

def char? : List Char → Option (Char × List Char)
  | '\'' :: '\\' :: rest =>
    match escape? rest with
    | some (c, length) => (dropPart? "'" (rest.drop length)).map fun rest => (c, rest)
    | none => none
  | '\'' :: c :: rest =>
    if c = '\'' then none else (dropPart? "'" rest).map fun rest => (c, rest)
  | _ => none

/-! ## Numbers -/

/-- The base of a spelling of a whole number, and its digits. -/
def splitBase : List Char → Nat × List Char
  | '0' :: 'x' :: rest => (16, rest)
  | '0' :: 'b' :: rest => (2, rest)
  | '0' :: 'o' :: rest => (8, rest)
  | digits => (10, digits)

/-- The value of digits of a base; `_` may stand behind the first of them. -/
def digitsValue? (base : Nat) (digits : List Char) : Option Nat :=
  if digits.isEmpty || digits.head? == some '_' then none
  else
    (digits.filter (· ≠ '_')).foldlM
      (fun n c => (hexDigit? c).bind fun d => if d < base then some (base * n + d) else none) 0

/-- A whole number without a sign, from zero to a limit. -/
def natural? (limit : Nat) (text : List Char) : Option (Nat × List Char) :=
  let (base, digits) := splitBase text
  ((digitsValue? base (digits.takeWhile isWholeChar)).filter (· ≤ limit)).map fun n =>
    (n, digits.dropWhile isWholeChar)

def integer? (text : List Char) : Option (Int64 × List Char) :=
  let (negative, digits) := spanSign text
  if negative then
    (natural? minWord.natAbs digits).map fun (n, rest) => (Int64.ofInt (-n), rest)
  else (natural? maxWord.natAbs digits).map fun (n, rest) => (Int64.ofInt n, rest)

def floatWords : List (String × Float) :=
  [("inf", 1 / 0), ("+inf", 1 / 0), ("-inf", -1 / 0), ("NaN", 0 / 0), ("+NaN", 0 / 0),
    ("-NaN", 0 / 0)]

/-- A float; a decimal whole number is one too. -/
def float? (text : List Char) : Option (Float × List Char) :=
  let spelled? := floatWords.findSome? fun (word, x) => (dropWord? word text).map fun rest => (x, rest)
  match spelled? with
  | some found => some found
  | none =>
    (readFloat? (text.takeWhile isFloatChar)).map fun x => (x, text.dropWhile isFloatChar)

def isNumberStart (c : Char) : Bool := c.isDigit || c == '+' || c == '-' || c == '.'

/-- Whether the characters of floats go on where those of whole numbers end. -/
def isSpelledAsFloat (text : List Char) : Bool :=
  let (_, digits) := spanSign text
  (digits.takeWhile isWholeChar).length < (digits.takeWhile isFloatChar).length

/-- What follows a number of any kind. A whole number that fits no word is read as a float. -/
def dropNumber? (text : List Char) : Option (List Char) :=
  let isSigned := text.head? == some '+' || text.head? == some '-'
  let afterWhole :=
    if isSpelledAsFloat text then none
    else if isSigned then (integer? text).map Prod.snd
    else (natural? maxUnsigned text).map Prod.snd
  afterWhole <|> (float? text).map Prod.snd

end QualityScript.Ron
