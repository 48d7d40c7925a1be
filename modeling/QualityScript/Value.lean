import QualityScript.Change
import QualityScript.Number.Text
import QualityScript.Text.Case

/-!
# Reading and showing values

A value has a text, a truth and, for numbers and for texts that spell one, a number. Whole results
of arithmetic below `9 · 10 ^ 15` in size are whole numbers; others stay floats. Comparison is by
number where both sides are numbers and by text otherwise.
-/

namespace QualityScript

open Number Text

namespace Value

/-- The value of an empty block. -/
def empty : Value := text ""

/-- What a bare reference yields: the level, or the text of a text quality. -/
def ofHolding : Quality.Holding → Value
  | .text s => text s
  | holding => int holding.level

/-- Whole results from here on stay floats. -/
def exactLimit : Nat := 9000000000000000

/-- A number as a whole number where it is one and is small enough to be exact. -/
def ofFloat (x : Float) : Value :=
  match whole? x with
  | some n => if n.natAbs < exactLimit then int (Int64.ofInt n) else float x
  | none => float x

/-- The number that a text spells, blanks at its ends apart. -/
def readNumber? (s : String) : Option Float := readFloat? (trim s.toList)

/-- The value as a number. Truth values and lists are none. -/
def number? : Value → Option Float
  | int n => some (ofWord n)
  | float x => some x
  | text s => readNumber? s
  | _ => none

/-- The value as a number, zero if it is none. -/
def numberOrZero (v : Value) : Float := v.number?.getD 0

def roundedWord (v : Value) : Int64 := roundWord v.numberOrZero

/-- Whether a text counts as true: it is not blank, `0` or a spelling of `false`. -/
def isTruthyText (s : String) : Bool :=
  let s := trimmed s
  !s.isEmpty && s != "0" && lowerAscii s != "false"

def isTruthy : Value → Bool
  | bool b => b
  | int n => n != 0
  | float x => x != 0
  | text s => isTruthyText s
  | ids list => !list.isEmpty
  | effect _ | pending _ => true

def wordText (n : Int64) : String := toString n.toInt

/-- The text of a float: whole numbers without a point. -/
def floatText (x : Float) : String :=
  match ofFloat x with
  | int n => wordText n
  | _ => plainText x

/-- The text of a value. Changes and later effects have none. -/
def display : Value → String
  | bool b => if b then "true" else "false"
  | int n => wordText n
  | float x => floatText x
  | text s => s
  | ids list => ", ".intercalate list
  | effect _ | pending _ => ""

end Value

inductive CompareOp where
  | gt | lt | ge | le | eq | ne
  deriving DecidableEq, Repr

namespace CompareOp

def onNumbers (op : CompareOp) (a b : Float) : Bool :=
  match op with
  | gt => b < a
  | lt => a < b
  | ge => b ≤ a
  | le => a ≤ b
  | eq => a == b
  | ne => a != b

/-- Compares two texts by code points. -/
def onTexts (op : CompareOp) (a b : String) : Bool :=
  match op with
  | gt => b < a
  | lt => a < b
  | ge => !(decide (a < b))
  | le => !(decide (b < a))
  | eq => a == b
  | ne => a != b

/-- Compares two values, as numbers if both are. -/
def compare (op : CompareOp) (lhs rhs : Value) : Bool :=
  match lhs.number?, rhs.number? with
  | some a, some b => op.onNumbers a b
  | _, _ => op.onTexts lhs.display rhs.display

end CompareOp

end QualityScript
