import QualityScript.Ron.Token

/-!
# Reading object notation

A reader takes a value of a wanted type from the start of a text. Members stand between two marks
and are separated by commas, and one more comma may follow the last. A record may carry the name of
its type and no other; its fields stand in any order, each known one at most once, and what an unknown
one holds is passed over, but it must be well formed. Values nest to a limited depth.

A file may begin with attributes that enable extensions, of which one changes what is read: with
`implicit_some` an optional value may stand without `Some`.
-/

namespace QualityScript.Ron

open Number

structure Rules where
  /-- Optional values may stand without `Some`. -/
  implicitSome : Bool
  /-- How many levels may still open. -/
  depth : Nat
  /-- No sequence has so many members, because the file is not longer. -/
  members : Nat

/-- Reads a value at the start of a text, and gives what follows it. -/
abbrev Reader (α : Type) := Rules → List Char → Option (α × List Char)

namespace Reader

/-! ## Values of one token -/

def text : Reader String := fun _ => text?

/-- A whole number from zero to a limit. -/
def natural (limit : Nat) : Reader Nat := fun _ => natural? limit

def integer : Reader Int64 := fun _ => integer?

def float : Reader Float := fun _ => float?

/-- A value that takes nothing from the text. -/
def pure {α : Type} (a : α) : Reader α := fun _ text => some (a, text)

def map {α β : Type} (f : α → β) (value : Reader α) : Reader β := fun rules text =>
  (value rules text).map fun (a, rest) => (f a, rest)

def deeper {α : Type} (value : Reader α) : Reader α := fun rules text =>
  match rules.depth with
  | 0 => none
  | depth + 1 => value { rules with depth } text

/-! ## Members -/

/-- At most `count` members up to a closing mark. A member that is not the first one needs a comma
before it. -/
def membersFrom {α : Type} (closing : Char) (member : List Char → Option (α × List Char)) :
    (count : Nat) → (comma : Bool) → List Char → Option (List α × List Char)
  | 0, _, _ => none
  | count + 1, comma, text => do
    match ← skip text with
    | [] => none
    | c :: rest =>
      if c = closing then return ([], rest)
      else if comma then
        let (a, rest) ← member (c :: rest)
        let (comma, rest) ← comma? rest
        let (as, rest) ← membersFrom closing member count comma rest
        return (a :: as, rest)
      else none

def sequence {α : Type} (opening closing : Char) (member : Reader α) : Reader (List α) :=
  fun rules text =>
    match text with
    | [] => none
    | c :: rest =>
      if c = opening then
        deeper (fun rules => membersFrom closing (member rules) rules.members true) rules rest
      else none

def list {α : Type} (value : Reader α) : Reader (List α) := sequence '[' ']' (deeper value)

def labelled {κ α : Type} (label : Reader κ) (value : κ → Reader α) : Reader (κ × α) :=
  fun rules text => do
    let (k, rest) ← label rules text
    match ← skip rest with
    | ':' :: rest =>
      let (a, rest) ← deeper (value k) rules (← skip rest)
      return ((k, a), rest)
    | _ => none

def entries {κ α : Type} (key : Reader κ) (value : Reader α) : Reader (List (κ × α)) :=
  sequence '\x7b' '\x7d' (labelled (deeper key) fun _ => value)

/-- Named fields. What is read of a field may depend on its name. -/
def namedFields {α : Type} (value : String → Reader α) : Reader (List (String × α)) :=
  sequence '(' ')' (labelled (fun _ => name?) value)

def enclosed {α : Type} (value : Reader α) : Reader α := fun rules text =>
  match text with
  | '(' :: rest => do
    let (a, rest) ← deeper value rules (← skip rest)
    let (_, rest) ← comma? rest
    match rest with
    | ')' :: rest => return (a, rest)
    | _ => none
  | _ => none

/-- An optional value: `None`, `Some(…)`, or with the extension the value itself, with or without
`Some` before it. -/
def option {α : Type} (value : Reader α) : Reader (Option α) := fun rules text =>
  let plain : Reader (Option α) := fun rules text =>
    if rules.implicitSome then (map some (deeper value)) rules text else none
  match dropPart? "None" text, dropPart? "Some" text with
  | some rest, _ => some (none, rest)
  | none, some rest => do
    let rest ← skip rest
    if rest.head? = some '(' then (map some (enclosed value)) rules rest else plain rules rest
  | none, none => plain rules text

/-! ## Values of unknown type -/

/-- Whether the parentheses at the start of a text hold named fields. -/
def holdsFields (text : List Char) : Bool :=
  match (skip (text.drop 1)).bind name? with
  | some (_, rest) => (skip rest).any fun rest => rest.head? == some ':'
  | none => false

/-- Words that are a value of their own, whatever follows them. -/
def plainWords : List String := ["true", "false", "None", "()", "inf", "-inf", "NaN"]

/-- A value for which only its form matters. -/
def ignore {α : Type} (value : Reader α) : Reader Unit := map (fun _ => ()) value

def unknownParens (inner : Reader Unit) : Reader Unit := fun rules text =>
  if holdsFields text then ignore (namedFields fun _ => inner) rules text
  else ignore (sequence '(' ')' (deeper inner)) rules text

def unknownNamed (inner : Reader Unit) : Reader Unit := fun rules text => do
  let text ← skip text
  if text.head? = some '(' then unknownParens inner rules text else return ((), text)

def unknownOver (inner : Reader Unit) : Reader Unit := fun rules text =>
  match plainWords.findSome? fun word => dropWord? word text with
  | some rest => some ((), rest)
  | none =>
    if (dropWord? "Some" text).isSome then ignore (option inner) rules text
    else
      match name? text with
      | some (_, rest) => unknownNamed inner rules rest
      | none =>
        match text with
        | [] => none
        | c :: _ =>
          if c = '(' then unknownParens inner rules text
          else if c = '[' then ignore (list inner) rules text
          else if c = '\x7b' then ignore (entries inner inner) rules text
          else if c = '"' ∨ c = 'r' then (text? text).map fun (_, rest) => ((), rest)
          else if c = '\'' then (char? text).map fun (_, rest) => ((), rest)
          else if isNumberStart c then (dropNumber? text).map fun rest => ((), rest)
          else none

/-- A value of any type with less than `levels` levels. -/
def unknownWithin : (levels : Nat) → Reader Unit
  | 0 => fun _ _ => none
  | levels + 1 => unknownOver (unknownWithin levels)

/-- A value of any type. Every level that opens takes from the depth that is left. -/
def unknown : Reader Unit := fun rules => unknownWithin (rules.depth + 1) rules

/-! ## Records and variants -/

/-- A field of a record: its name and how its value goes into the record. -/
structure Field (α : Type) where
  name : String
  isRequired : Bool
  value : Reader (α → α)

def Field.required {α β : Type} (name : String) (value : Reader β) (put : β → α → α) : Field α :=
  ⟨name, true, map put value⟩

def Field.optional {α β : Type} (name : String) (value : Reader β) (put : β → α → α) : Field α :=
  ⟨name, false, map put value⟩

/-- Whether each field stands at most once, and at least once if it must be there. -/
def areComplete {α : Type} (fields : List (Field α)) (names : List String) : Bool :=
  fields.all fun field =>
    let count := names.count field.name
    count ≤ 1 && (count = 1 || !field.isRequired)

/-- The fields of a record in parentheses, put into a record where none is read yet. -/
def fields {α : Type} (known : List (Field α)) (start : α) : Reader α := fun rules text => do
  let value (name : String) : Reader (α → α) :=
    match known.find? fun field => field.name == name with
    | some field => field.value
    | none => map (fun _ => id) unknown
  let (found, rest) ← namedFields value rules text
  if areComplete known (found.map Prod.fst) then
    return (found.foldl (fun record (_, put) => put record) start, rest)
  else none

/-- A record of a type, whose name may be left out. -/
def record {α : Type} (type : String) (known : List (Field α)) (start : α) : Reader α :=
  fun rules text =>
    if text.head?.any isNameChar then do
      let (name, rest) ← name? text
      if name = type then fields known start rules (← skip rest) else none
    else fields known start rules text

def variant {α : Type} (ofName? : String → Option (Reader α)) : Reader α :=
  deeper fun rules text => do
    let (name, rest) ← name? text
    let value ← ofName? name
    value rules rest

def word {α : Type} (ofName? : String → Option α) : Reader α :=
  variant fun name => (ofName? name).map pure

/-- What a variant holds, after blanks. -/
def held {α : Type} (value : Reader α) : Reader α := fun rules text => do
  value rules (← skip text)

end Reader

/-! ## Files -/

/-- The parts of an attribute, blanks allowed after each. -/
def dropParts? : List String → List Char → Option (List Char)
  | [], text => some text
  | part :: parts, text => do dropParts? parts (← skip (← dropPart? part text))

def extensions? : (count : Nat) → List Char → Option (List String × List Char)
  | 0, _ => none
  | count + 1, text => do
    let (name, rest) ← name? text
    let (comma, rest) ← comma? rest
    match comma, rest.head?.any isNameChar with
    | true, true =>
      let (names, rest) ← extensions? count rest
      return (name :: names, rest)
    | false, true => none
    | _, false => return ([name], rest)

def knownExtensions : List String := ["unwrap_newtypes", "implicit_some", "unwrap_variant_newtypes"]

/-- The extensions of the attributes in front of a text, and the text after them. -/
def attributes? : (count : Nat) → List Char → Option (List String × List Char)
  | count + 1, '#' :: rest => do
    let rest ← dropParts? ["#", "!", "[", "enable", "("] ('#' :: rest)
    let (names, rest) ← extensions? (rest.length + 1) rest
    if names.all knownExtensions.contains then
      let rest ← dropParts? [")", "]"] (← skip rest)
      let (more, rest) ← attributes? count rest
      return (names ++ more, rest)
    else none
  | _, text => some ([], text)

/-- How many levels a file may open. -/
def maxDepth : Nat := 128

def readFile? {α : Type} (value : Reader α) (file : String) : Option α := do
  let text ← skip file.toList
  let (names, text) ← attributes? (text.length + 1) text
  let rules : Rules :=
    { implicitSome := names.contains "implicit_some", depth := maxDepth
      members := text.length + 1 }
  let (a, rest) ← value rules text
  match ← skip rest with
  | [] => return a
  | _ => none

end QualityScript.Ron
