/-!
# Chances of challenges

A challenge is won with a high skill, a low one, one near the target or one far from it. Each
direction has a symbol of its own and a comparison that means the same.

The chance of a skill against a target rises over a zone of `margin` to either side of the target
and is `pivot` percent at the target itself. The curve only adds, subtracts, multiplies, divides and
compares, so it is written once for every type of numbers that can do so: for floats, and for exact
fractions when its shape is studied. A number that is not below or equal to itself is no number.

Two caps limit the chance. They may come in either order; if they cannot be ordered at all, there is
no chance to tell.
-/

namespace QualityScript

inductive Direction where
  | high | low | near | far
  deriving DecidableEq, Repr

namespace Direction

def symbol : Direction → String
  | high => ">>"
  | low => "<<"
  | near => "><"
  | far => "<>"

/-- The direction that a symbol or a comparison stands for. -/
def ofSymbol? : String → Option Direction
  | ">>" | ">=" | ">" => some high
  | "<<" | "<=" | "<" => some low
  | "><" | "==" => some near
  | "<>" | "!=" => some far
  | _ => none

def label : Direction → String
  | high => "High"
  | low => "Low"
  | near => "Near"
  | far => "Far"

theorem ofSymbol?_symbol (d : Direction) : ofSymbol? d.symbol = some d := by cases d <;> rfl

end Direction

end QualityScript

namespace QualityScript.Challenge

variable {α : Type} [Add α] [Sub α] [Mul α] [Div α] [Neg α] [OfNat α 0] [OfNat α 1] [OfNat α 2]
  [OfNat α 100] [LE α] [LT α] [DecidableLE α] [DecidableLT α]

/-- The parameters of a curve. Caps and pivot are percentages. -/
structure Params (α : Type) where
  margin : α
  minCap : α
  maxCap : α
  pivot : α
  deriving Repr

/-- The number moved between two bounds. -/
def between (lo hi x : α) : α :=
  let x := if x < lo then lo else x
  if hi < x then hi else x

def size (x : α) : α := if x < 0 then -x else x

/-- The fraction for a high skill: zero below the zone, one above it, and through `pivot` at the
target. A margin of zero or less leaves a step at the target. -/
def rising (skill target margin pivot : α) : α :=
  if margin ≤ 0 then
    if target ≤ skill then 1 else 0
  else
    let lower := target - margin
    let upper := target + margin
    if skill ≤ lower then 0
    else if upper ≤ skill then 1
    else if skill < target then
      let span := target - lower
      if span ≤ 0 then 1 / 2 else (skill - lower) / span * pivot
    else
      let span := upper - target
      if span ≤ 0 then 1 / 2 else pivot + (skill - target) / span * (1 - pivot)

/-- The fraction for a skill near the target: one at the target and zero from `margin` on. -/
def nearness (skill target margin : α) : α :=
  let distance := size (skill - target)
  if margin ≤ 0 then
    if distance ≤ 0 then 1 else 0
  else if margin ≤ distance then 0
  else 1 - distance / margin

/-- The fraction of successes, before any caps. -/
def fraction (direction : Direction) (skill target margin pivot : α) : α :=
  let pivot := between 0 1 (pivot / 100)
  match direction with
  | .high => rising skill target margin pivot
  | .low => 1 - rising skill target margin pivot
  | .near => nearness skill target margin
  | .far => 1 - nearness skill target margin

/-- The caps with the smaller one first, if they can be ordered. -/
def orderedCaps (params : Params α) : α × α :=
  if params.minCap ≤ params.maxCap then (params.minCap, params.maxCap)
  else (params.maxCap, params.minCap)

/-- The chance in percent. No fraction at all counts as the lower cap; caps that cannot be ordered
leave no chance. -/
def chance? (direction : Direction) (skill target : α) (params : Params α) : Option α :=
  let x := fraction direction skill target params.margin params.pivot
  let (lo, hi) := orderedCaps params
  if ¬ x ≤ x then some lo
  else if lo ≤ hi then some (between lo hi (x * 100))
  else none

inductive CurveError where
  /-- The caps cannot be ordered. -/
  | unorderedCaps
  /-- There are more points than were asked for. -/
  | tooLong
  deriving DecidableEq, Repr

/-- The points of a curve from `skill` on while the skill is at most `limit`. -/
def pointsFrom (direction : Direction) (target : α) (params : Params α) (limit step : α) :
    Nat → α → Except CurveError (List (α × α))
  | 0, _ => .error .tooLong
  | count + 1, skill =>
    if skill ≤ limit then
      match chance? direction skill target params with
      | none => .error .unorderedCaps
      | some percent =>
        (pointsFrom direction target params limit step count (skill + step)).map
          ((skill, percent) :: ·)
    else .ok []

/-- The curve from `start` to `stop`, both included, in steps. The end is met within `slack`. A step
of zero or less, or a start past the stop, gives no points. -/
def points (direction : Direction) (target : α) (params : Params α) (start stop step slack : α)
    (most : Nat) : Except CurveError (List (α × α)) :=
  if step ≤ 0 ∨ stop < start then .ok []
  else pointsFrom direction target params (stop + slack) step (most + 1) start

end QualityScript.Challenge
