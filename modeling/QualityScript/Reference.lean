import QualityScript.Text.Character

/-!
# References to qualities

`$id` names a quality of the player, `#id` one of the world, and `$.` the quality that is being
shown. A property may follow after a dot: `$clues.name`, `$.level`. The dot belongs to the reference
only when a letter follows it, so a reference can end a sentence.
-/

namespace QualityScript

open Text

/-- Which states a reference reads. -/
inductive Scope where
  /-- The qualities of the player, `$`. -/
  | player
  /-- The qualities of the world, `#`. -/
  | world
  /-- The quality being shown, `$.`. -/
  | self
  deriving DecidableEq, Repr

def Scope.marker : Scope → String
  | player => "$"
  | world => "#"
  | self => "$."

/-- The part of a quality that a reference asks for. -/
inductive Property where
  /-- The level, or the text of a text quality. -/
  | value
  | level
  | changePoints
  | kind
  | name
  | description
  | plural
  /-- The value with a capital first letter. -/
  | capital
  /-- A text variant of the definition. -/
  | variant (key : String)
  deriving DecidableEq, Repr

namespace Property

/-- The property that a word after the dot names; an unknown word names a text variant. -/
def ofWord : String → Property
  | "level" => level
  | "cp" | "change_points" | "changePoints" => changePoints
  | "type" => kind
  | "name" => name
  | "description" => description
  | "plural" => plural
  | "capital" => capital
  | word => variant word

def word : Property → String
  | value => ""
  | level => "level"
  | changePoints => "cp"
  | kind => "type"
  | name => "name"
  | description => "description"
  | plural => "plural"
  | capital => "capital"
  | variant key => key

end Property

/-- A reference such as `$clues.name`. The id is empty in the scope `self`. -/
structure Reference where
  scope : Scope
  id : String
  property : Property
  deriving DecidableEq, Repr

namespace Reference

/-- A property word at the start of a text, and what follows it. A word begins with a letter. -/
def spanProperty (text : List Char) : Property × List Char :=
  match text with
  | c :: _ =>
    if isLetter c then
      let (word, rest) := spanIdent text
      (.ofWord (String.ofList word), rest)
    else (.value, text)
  | [] => (.value, [])

/-- An id at the start of a text, a property if there is one, and what follows. -/
def spanNamed? (scope : Scope) (text : List Char) : Option (Reference × List Char) :=
  match spanIdent text with
  | ([], _) => none
  | (id, '.' :: c :: rest) =>
    if isLetter c then
      let (property, rest) := spanProperty (c :: rest)
      some (⟨scope, String.ofList id, property⟩, rest)
    else some (⟨scope, String.ofList id, .value⟩, '.' :: c :: rest)
  | (id, rest) => some (⟨scope, String.ofList id, .value⟩, rest)

def span? : List Char → Option (Reference × List Char)
  | '$' :: '.' :: text =>
    let (property, rest) := spanProperty text
    some (⟨.self, "", property⟩, rest)
  | '$' :: text => spanNamed? .player text
  | '#' :: text => spanNamed? .world text
  | _ => none

/-- The reference that a text consists of, blanks at its ends apart. -/
def parse? (text : String) : Option Reference :=
  match span? (trim text.toList) with
  | some (reference, []) => some reference
  | _ => none

def display (r : Reference) : String :=
  match r.scope, r.property with
  | .self, .value => "$."
  | .self, p => "$." ++ p.word
  | scope, .value => scope.marker ++ r.id
  | scope, p => scope.marker ++ r.id ++ "." ++ p.word

end Reference

end QualityScript
