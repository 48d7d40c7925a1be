import QualityScript.Quality.Definition
import QualityScript.Table

/-!
# Events and content libraries

A storylet waits at a place and an opportunity is drawn from a deck. Both have requirements, and
options with requirements and effects of their own. An option with a challenge has effects for
passing and for failing it; one without always passes.

A library holds definitions of qualities and events in the order in which their ids first came, with
an index of the ids. A definition with a known id replaces the earlier one in its place, so a library
can be laid over another one. What the engine reads of its content is only how to look things up: a
registry.
-/

namespace QualityScript.Content

open Quality

inductive EventKind where
  | storylet
  | opportunity
  deriving DecidableEq, Repr, Inhabited

namespace EventKind

def label : EventKind → String
  | storylet => "Storylet"
  | opportunity => "Opportunity"

def ofLabel? (word : String) : Option EventKind := [storylet, opportunity].find? (·.label = word)

end EventKind

/-- One choice in an event. -/
structure EventOption where
  id : String
  name : String
  description : String
  requirements : List String
  challenge : Option String
  successEffects : List String
  failureEffects : List String
  deriving DecidableEq, Repr

/-- A storylet or an opportunity. -/
structure Event where
  id : String
  kind : EventKind
  name : String
  description : String
  requirements : List String
  options : List EventOption
  deriving DecidableEq, Repr

/-- An option with nothing but an id. -/
def EventOption.new (id : String) : EventOption :=
  { id, name := "", description := "", requirements := [], challenge := none, successEffects := [],
    failureEffects := [] }

/-- An event with nothing but an id. -/
def Event.new (id : String) : Event :=
  { id, kind := .storylet, name := "", description := "", requirements := [], options := [] }

def Event.option? (event : Event) (id : String) : Option EventOption :=
  event.options.find? (·.id = id)

/-- Every template and script of an option. -/
def EventOption.scripts (o : EventOption) : List String :=
  [o.name, o.description] ++ o.requirements ++ o.challenge.toList ++ o.successEffects
    ++ o.failureEffects

def Event.scripts (event : Event) : List String :=
  [event.name, event.description] ++ event.requirements ++ event.options.flatMap (·.scripts)

/-- How the engine looks up what authors wrote. -/
structure Registry where
  quality? : String → Option Definition
  event? : String → Option Event
  /-- The qualities of a category, in order. -/
  inCategory : String → List Definition

/-- Definitions and events, each id once, with an index of the ids of each. -/
structure Library where
  qualityTable : Table Definition.id
  eventTable : Table Event.id
  deriving DecidableEq, Repr

namespace Library

def empty : Library := ⟨.empty, .empty⟩

instance : Inhabited Library := ⟨empty⟩

def qualities (library : Library) : List Definition := library.qualityTable.members

def events (library : Library) : List Event := library.eventTable.members

def insertQuality (library : Library) (definition : Definition) : Library :=
  { library with qualityTable := library.qualityTable.put definition }

def insertEvent (library : Library) (event : Event) : Library :=
  { library with eventTable := library.eventTable.put event }

/-- Lays another library over this one. -/
def merge (library other : Library) : Library :=
  other.events.foldl insertEvent (other.qualities.foldl insertQuality library)

def quality? (library : Library) (id : String) : Option Definition :=
  library.qualityTable.get? id

def event? (library : Library) (id : String) : Option Event :=
  library.eventTable.get? id

def inCategory (library : Library) (category : String) : List Definition :=
  library.qualities.filter (·.inCategory category)

def registry (library : Library) : Registry :=
  ⟨library.quality?, library.event?, library.inCategory⟩

/-- The library of two lists; later ones replace earlier ones with their id. -/
def ofLists (qualities : List Definition) (events : List Event) : Library :=
  events.foldl insertEvent (qualities.foldl insertQuality empty)

end Library

end QualityScript.Content
