import QualityScript.Value
import QualityScript.Quality.Holding

/-!
# Making changes

The holding after a change: numbers are rounded to whole ones and the arithmetic saturates. A gain
of a pyramidal quality is change points and a loss is whole levels, which also clears the points.
Items and worn things never go below zero. Texts can be replaced and appended to.
-/

namespace QualityScript

open Number Quality

/-- The sum of two words, at the end of the range if it does not fit. -/
def addLevel (a b : Int64) : Int64 := saturate (a.toInt + b.toInt)

/-- The negated word, the largest word for the smallest. -/
def negateLevel (a : Int64) : Int64 := saturate (-a.toInt)

/-- The word, or zero if it is negative. -/
def floorZero (a : Int64) : Int64 := max a 0

def nextText (value : String) (op : ChangeOp) (amount : Value) : String :=
  match op with
  | .set => amount.display
  | .add => value ++ amount.display
  | _ => value

def setLevel (before : Holding) (level : Int64) : Holding :=
  match before with
  | .pyramidal .. => .pyramidal (floorZero level) 0
  | .counter _ => .counter level
  | .item _ => .item (floorZero level)
  | .equipable _ bonus => .equipable (floorZero level) bonus
  | .text _ => .text (Value.wordText level)

/-- A quality moved by a number of levels, or of change points. -/
def moveLevel (before : Holding) (delta : Int64) : Holding :=
  match before with
  | .pyramidal level points =>
    if 0 ≤ delta then
      let (level, points) := Pyramid.gain level points delta
      .pyramidal level points
    else .pyramidal (floorZero (addLevel level delta)) 0
  | .counter level => .counter (addLevel level delta)
  | .item level => .item (floorZero (addLevel level delta))
  | .equipable level bonus => .equipable (floorZero (addLevel level delta)) bonus
  | .text value => .text value

/-- A quality with levels after a change by a whole amount. -/
def nextLevel (before : Holding) (op : ChangeOp) (amount : Int64) : Holding :=
  match op with
  | .set => setLevel before amount
  | .add => moveLevel before amount
  | .subtract => moveLevel before (negateLevel amount)
  | .increment => moveLevel before 1
  | .decrement => moveLevel before (-1)

def nextHolding (before : Holding) (op : ChangeOp) (amount : Value) : Holding :=
  match before with
  | .text value => .text (nextText value op amount)
  | before => nextLevel before op amount.roundedWord

/-- The states of the player and of the world. -/
structure World where
  player : States
  world : States

def Change.update (change : Change) (state : State) : State :=
  { state with
    holding := change.after
    sources := state.sources ++ change.source.toList }

def Change.apply (change : Change) (states : States) : States :=
  let state := (states.get? change.id).getD (.new change.id change.after)
  states.put change.id (change.update state)

/-- Writes the changes of an effect, each into the states of its scope. -/
def applyEffect (effect : Effect) (states : World) : World :=
  effect.foldl
    (fun states change =>
      match change.scope with
      | .world => { states with world := change.apply states.world }
      | .player | .self => { states with player := change.apply states.player })
    states

inductive DurationUnit where
  | minutes | hours | days
  deriving DecidableEq, Repr

namespace DurationUnit

def suffix : DurationUnit → Char
  | minutes => 'm'
  | hours => 'h'
  | days => 'd'

def ofSuffix? : Char → Option DurationUnit
  | 'm' => some minutes
  | 'h' => some hours
  | 'd' => some days
  | _ => none

def milliseconds : DurationUnit → Nat
  | minutes => 60000
  | hours => 3600000
  | days => 86400000

/-- The milliseconds in an amount of units; none for negative amounts. -/
def toMilliseconds (unit : DurationUnit) (amount : Float) : UInt64 :=
  roundUnsigned (amount * Float.ofNat unit.milliseconds)

theorem ofSuffix?_suffix (unit : DurationUnit) : ofSuffix? unit.suffix = some unit := by
  cases unit <;> rfl

end DurationUnit

end QualityScript
