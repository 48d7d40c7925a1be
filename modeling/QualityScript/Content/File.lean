import QualityScript.Content.Library
import QualityScript.Ron.Reader
import QualityScript.Ron.Writer

/-!
# Content files

A content file is a record with two lists, `qualities` and `events`. Only ids are required; all else
may be left out. One file may not define a quality twice; of events with one id the last counts.
-/

namespace QualityScript.Content

open Quality Ron

inductive FileError where
  | unreadable
  /-- The text is no file of this shape. -/
  | malformed
  | duplicateQuality (id : String)
  deriving DecidableEq, Repr

def FileError.message : FileError → String
  | unreadable => unreadableMessage
  | malformed => malformedMessage
  | duplicateQuality id => "duplicate quality id: " ++ id

namespace Reading

open Reader

def texts : Reader (List String) := list text

def optionalText : Reader (Option String) := option text

def variants : Reader Variants := map Variants.ofList (entries text text)

def definition : Reader Definition :=
  record "QualityDefinition"
    [.required "id" text fun id d => { d with id },
      .optional "name" text fun name d => { d with name },
      .optional "description" text fun description d => { d with description },
      .optional "kind" (word Kind.ofLabel?) fun kind d => { d with kind },
      .optional "category" text fun category d => { d with category },
      .optional "plural" optionalText fun plural d => { d with plural },
      .optional "text_variants" variants fun variants d => { d with variants },
      .optional "bonus" text fun bonus d => { d with bonus },
      .optional "tags" texts fun tags d => { d with tags },
      .optional "image" optionalText fun image d => { d with image }]
    (.new "")

def eventOption : Reader EventOption :=
  record "EventOption"
    [.required "id" text fun id o => { o with id },
      .optional "name" text fun name o => { o with name },
      .optional "description" text fun description o => { o with description },
      .optional "requirements" texts fun requirements o => { o with requirements },
      .optional "challenge" optionalText fun challenge o => { o with challenge },
      .optional "success_effects" texts fun successEffects o => { o with successEffects },
      .optional "failure_effects" texts fun failureEffects o => { o with failureEffects }]
    (.new "")

def event : Reader Event :=
  record "EventDefinition"
    [.required "id" text fun id e => { e with id },
      .optional "kind" (word EventKind.ofLabel?) fun kind e => { e with kind },
      .optional "name" text fun name e => { e with name },
      .optional "description" text fun description e => { e with description },
      .optional "requirements" texts fun requirements e => { e with requirements },
      .optional "options" (list eventOption) fun options e => { e with options }]
    (.new "")

def lists : Reader (List Definition × List Event) :=
  record "RonContent"
    [.optional "qualities" (list definition) fun qualities lists => (qualities, lists.2),
      .optional "events" (list event) fun events lists => (lists.1, events)]
    ([], [])

end Reading

/-- The first id that stands twice. -/
def firstDuplicate? (seen : List String) : List String → Option String
  | [] => none
  | id :: ids => if seen.contains id then some id else firstDuplicate? (id :: seen) ids

def Library.ofText (text : String) : Except FileError Library :=
  match readFile? Reading.lists text with
  | none => .error .malformed
  | some (qualities, events) =>
    match firstDuplicate? [] (qualities.map Definition.id) with
    | some id => .error (.duplicateQuality id)
    | none => .ok (.ofLists qualities events)

def Library.ofFile : FileText → Except FileError Library
  | none => .error .unreadable
  | some contents => ofText contents

def ofTexts (list : List String) : Ron := .list (list.map .text)

def ofOptionalText : Option String → Ron
  | none => .word "None"
  | some value => .present (.text value)

def ofDefinition (d : Definition) : Ron :=
  .record
    [("id", .text d.id), ("name", .text d.name), ("description", .text d.description),
      ("kind", .word d.kind.label), ("category", .text d.category),
      ("plural", ofOptionalText d.plural),
      ("text_variants", .map (d.variants.entries.map fun (key, variant) => (.text key, .text variant))),
      ("bonus", .text d.bonus), ("tags", ofTexts d.tags), ("image", ofOptionalText d.image)]

def ofEventOption (o : EventOption) : Ron :=
  .record
    [("id", .text o.id), ("name", .text o.name), ("description", .text o.description),
      ("requirements", ofTexts o.requirements), ("challenge", ofOptionalText o.challenge),
      ("success_effects", ofTexts o.successEffects),
      ("failure_effects", ofTexts o.failureEffects)]

def ofEvent (e : Event) : Ron :=
  .record
    [("id", .text e.id), ("kind", .word e.kind.label), ("name", .text e.name),
      ("description", .text e.description), ("requirements", ofTexts e.requirements),
      ("options", .list (e.options.map ofEventOption))]

def Library.toText (library : Library) : String :=
  writeFile
    (.record
      [("qualities", .list (library.qualities.map ofDefinition)),
        ("events", .list (library.events.map ofEvent))])

end QualityScript.Content
