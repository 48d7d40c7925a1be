import QualityScript.Number.Binary

/-!
# Kinds of quality and what is held of one

A quality counts, is owned, is worn, grows by change points, or holds a text. A holding is the
amount of one quality; its constructor is its kind.

Of a quality that grows by change points the step from level `n` to level `n + 1` costs `n + 1` of
them, so `k` steps from level `n` cost `k · n + k · (k + 1) / 2`. A gain spends its points on as many
whole steps as they pay for and keeps the rest. The number of steps is found from a guess that is then
moved down while it costs too much and up while one more step can be paid.
-/

namespace QualityScript.Quality

inductive Kind where
  /-- Levels are bought with change points: the step above level `n` costs `n + 1`. -/
  | pyramidal
  | counter
  | item
  | equipable
  /-- A text; it has no level. -/
  | text
  deriving DecidableEq, Repr, Inhabited

namespace Kind

/-- The name of the kind in content files and in answers. -/
def label : Kind → String
  | pyramidal => "Pyramidal"
  | counter => "Counter"
  | item => "Item"
  | equipable => "Equipable"
  | text => "String"

def all : List Kind := [pyramidal, counter, item, equipable, text]

def ofLabel? (word : String) : Option Kind := all.find? fun k => k.label = word

theorem ofLabel?_label (k : Kind) : ofLabel? k.label = some k := by cases k <;> decide

end Kind

inductive Holding where
  | pyramidal (level changePoints : Int64)
  | counter (level : Int64)
  | item (level : Int64)
  /-- A worn thing may carry a bonus text of its own. -/
  | equipable (level : Int64) (bonus : Option String)
  | text (value : String)
  deriving DecidableEq, Repr

namespace Holding

def empty : Kind → Holding
  | .pyramidal => pyramidal 0 0
  | .counter => counter 0
  | .item => item 0
  | .equipable => equipable 0 none
  | .text => text ""

def kind : Holding → Kind
  | pyramidal .. => .pyramidal
  | counter .. => .counter
  | item .. => .item
  | equipable .. => .equipable
  | text .. => .text

/-- The level, zero for a text. -/
def level : Holding → Int64
  | pyramidal level _ | counter level | item level | equipable level _ => level
  | text _ => 0

/-- The text, empty for the kinds with a level. -/
def textValue : Holding → String
  | text value => value
  | _ => ""

def changePoints : Holding → Int64
  | pyramidal _ points => points
  | _ => 0

@[simp] theorem kind_empty (k : Kind) : (empty k).kind = k := by cases k <;> rfl

end Holding

end QualityScript.Quality

namespace QualityScript.Quality.Pyramid

open Number

/-- The cost of `steps` steps from a level. -/
def cost (level steps : Nat) : Nat := steps * level + steps * (steps + 1) / 2

theorem cost_zero (level : Nat) : cost level 0 = 0 := by simp [cost]

theorem cost_succ (level steps : Nat) : cost level (steps + 1) = cost level steps + (level + steps + 1) := by
  have e : (steps + 1) * (steps + 1 + 1) = steps * (steps + 1) + 2 * (steps + 1) := by
    simp only [Nat.add_mul, Nat.mul_add]; omega
  unfold cost
  rw [e, Nat.add_mul, Nat.add_mul_div_left _ _ (by decide)]
  omega

theorem lt_cost_succ (level steps : Nat) : steps < cost level (steps + 1) := by
  rw [cost_succ]; omega

/-- The guess moved down while it costs more than the points. -/
def lowered (level points : Nat) : Nat → Nat
  | 0 => 0
  | steps + 1 => if points < cost level (steps + 1) then lowered level points steps else steps + 1

/-- The guess moved up while one more step can be paid. -/
def raised (level points steps : Nat) : Nat :=
  if h : cost level (steps + 1) ≤ points then raised level points (steps + 1) else steps
termination_by points - steps
decreasing_by
  have := lt_cost_succ level steps
  omega

/-- The number of steps that the points pay for, starting from any guess. -/
def stepsFrom (guess level points : Nat) : Nat := raised level points (lowered level points guess)

/-- A guess built from the top bit down: a bit is kept if the steps so far can be paid. -/
def guess (level points : Nat) : Nat → Nat → Nat
  | 0, steps => steps
  | bit + 1, steps =>
    let more := steps + Nat.pow 2 bit
    guess level points bit (if cost level more ≤ points then more else steps)

/-- Level and points after a gain. A negative level or rest counts as zero. -/
def gain (level changePoints gained : Int64) : Int64 × Int64 :=
  let level := level.toInt.toNat
  let points := changePoints.toInt.toNat + gained.toInt.toNat
  let steps := stepsFrom (guess level points 34 0) level points
  (saturate (level + steps), saturate (points - cost level steps))

end QualityScript.Quality.Pyramid
