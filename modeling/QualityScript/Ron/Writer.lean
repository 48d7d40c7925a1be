import QualityScript.Text.Quoted

/-!
# Writing object notation

What is written is a tree. Every member of a list, a map or a record stands on a line of its own,
indented by four spaces for each level and followed by a comma. An empty list or map takes no lines.
-/

namespace QualityScript

/-- A tree to be written. -/
inductive Ron where
  | text (value : String)
  /-- A name alone, such as `None` or `Item`. -/
  | word (name : String)
  /-- A value that is there: `Some(…)`. -/
  | present (value : Ron)
  | list (items : List Ron)
  | map (entries : List (Ron × Ron))
  /-- Named fields in parentheses. -/
  | record (fields : List (String × Ron))

namespace Ron

open Text

/-- A character inside a written text; a single quote is escaped as well. -/
def writtenChar (c : Char) : List Char := if c = '\'' then ['\\', '\''] else quotedChar c

def writtenText (value : String) : List Char :=
  '"' :: value.toList.flatMap writtenChar ++ ['"']

def indent (level : Nat) : List Char := List.replicate (4 * level) ' '

/-- The lines of members between two marks. -/
def block (opening closing : Char) (level : Nat) (members : List (List Char)) : List Char :=
  opening :: '\n' :: members.flatMap (fun m => indent (level + 1) ++ m ++ [',', '\n'])
    ++ indent level ++ [closing]

/-- A block that takes no lines if it is empty. -/
def blockOrEmpty (opening closing : Char) (level : Nat) (members : List (List Char)) : List Char :=
  if members.isEmpty then [opening, closing] else block opening closing level members

mutual

/-- The text of a tree at a level of indentation. -/
def write (level : Nat) : Ron → List Char
  | .text value => writtenText value
  | .word name => name.toList
  | .present value => "Some(".toList ++ write level value ++ [')']
  | .list items => blockOrEmpty '[' ']' level (writeItems (level + 1) items)
  | .map entries => blockOrEmpty '\x7b' '\x7d' level (writeEntries (level + 1) entries)
  | .record fields => block '(' ')' level (writeFields (level + 1) fields)

def writeItems (level : Nat) : List Ron → List (List Char)
  | [] => []
  | item :: items => write level item :: writeItems level items

def writeFields (level : Nat) : List (String × Ron) → List (List Char)
  | [] => []
  | (name, value) :: fields =>
    (name.toList ++ ':' :: ' ' :: write level value) :: writeFields level fields

def writeEntries (level : Nat) : List (Ron × Ron) → List (List Char)
  | [] => []
  | (key, value) :: entries =>
    (write level key ++ ':' :: ' ' :: write level value) :: writeEntries level entries

end

def writeFile (tree : Ron) : String := String.ofList (write 0 tree)

end Ron

end QualityScript
