import QualityScript.Quality.State
import QualityScript.Reference

/-!
# Values of scripts, and the changes they ask for

A script yields a truth value, a number, a text, a list of quality ids, the changes of an effect, or
an effect to happen later. A change carries the value it was made from, so the types refer to each
other.
-/

namespace QualityScript

open Quality

/-- How a change combines the amount with what is held. -/
inductive ChangeOp where
  /-- `+=` -/
  | add
  /-- `-=` -/
  | subtract
  /-- `=` -/
  | set
  /-- `++` -/
  | increment
  /-- `--` -/
  | decrement
  deriving DecidableEq, Repr

def ChangeOp.symbol : ChangeOp → String
  | add => "+="
  | subtract => "-="
  | set => "="
  | increment => "++"
  | decrement => "--"

/-- Whether a later effect adds to others waiting for the same qualities or replaces them. -/
inductive PendingKind where
  /-- It happens once after its time. -/
  | schedule
  /-- It takes the place of any effect waiting for the same qualities. -/
  | reset
  deriving DecidableEq, Repr

def PendingKind.label : PendingKind → String
  | schedule => "Schedule"
  | reset => "Reset"

mutual

/-- What a script yields. -/
inductive Value where
  | bool (truth : Bool)
  | int (number : Int64)
  | float (number : Float)
  | text (text : String)
  /-- Quality ids. -/
  | ids (ids : List String)
  /-- Changes to be made. -/
  | effect (changes : List Change)
  /-- Changes to be made later. -/
  | pending (event : PendingEvent)

/-- One change of one quality: the amount, and what is held before and after. -/
structure Change where
  scope : Scope
  id : String
  op : ChangeOp
  amount : Value
  before : Holding
  after : Holding
  description : Option String
  source : Option String

/-- An effect that waits for some milliseconds. -/
structure PendingEvent where
  kind : PendingKind
  effect : List Change
  duration : UInt64

end

/-- The changes of one effect, in the order in which they were computed. -/
abbrev Effect := List Change

instance : Inhabited Value := ⟨.text ""⟩

end QualityScript
