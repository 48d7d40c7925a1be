import QualityScript.Effect
import QualityScript.Challenge.Curve

/-!
# Expressions

The trees of the expressions in blocks: literals, references, arithmetic, comparisons, challenges,
effects, ranges, and the calls written `%name[…]`.
-/

namespace QualityScript

inductive Literal where
  | bool (truth : Bool)
  | int (number : Int64)
  | float (number : Float)
  | text (text : String)

def Literal.value : Literal → Value
  | bool b => .bool b
  | int n => .int n
  | float x => .float x
  | text s => .text s

inductive ArithOp where
  | add | sub | mul | div
  deriving DecidableEq, Repr

/-- The direction that a comparison means in a challenge. -/
def CompareOp.direction : CompareOp → Direction
  | gt | ge => .high
  | lt | le => .low
  | eq => .near
  | ne => .far

/-- Notes on a change: `$gold[desc:Found coins, source:market] += 5`. -/
structure Notes where
  description : Option String
  source : Option String
  deriving DecidableEq, Repr

def Notes.none : Notes := ⟨.none, .none⟩

inductive EffectTarget where
  | quality (reference : Reference)
  /-- Every quality of a category. -/
  | category (name : String)
  deriving DecidableEq, Repr

/-- How a list of names is joined. -/
inductive Separator where
  | comma | pipe | newline | space
  /-- `a, b and c` -/
  | and
  deriving DecidableEq, Repr

mutual

inductive Expr where
  | literal (value : Literal)
  | ref (reference : Reference)
  | aliasName (name : String)
  /-- A plain word; in a margin `target` stands for the target. -/
  | word (text : String)
  | call (call : Call)
  | neg (inner : Expr)
  | not (inner : Expr)
  | arith (op : ArithOp) (lhs rhs : Expr)
  | compare (op : CompareOp) (lhs rhs : Expr)
  | and (items : List Expr)
  | or (items : List Expr)
  | challenge (challenge : Challenge)
  | effect (effects : List EffectExpr)
  /-- `lo ~ hi`: a whole number between two bounds, both included. -/
  | range (lo hi : Expr)

/-- A challenge with its optional parameters. -/
structure Challenge where
  subject : Expr
  direction : Direction
  target : Expr
  margin : Option Expr
  minCap : Option Expr
  maxCap : Option Expr
  pivot : Option Expr
  /-- Whether it is rolled, so that it is passed or failed. -/
  roll : Bool

/-- One change of an effect. `++` and `--` have no amount. -/
structure EffectExpr where
  target : EffectTarget
  notes : Notes
  op : ChangeOp
  amount : Option Expr

/-- A call `%name[arguments ; options]`. -/
inductive Call where
  /-- True with a chance in percent. -/
  | random (chance : Expr) (invert : Bool)
  /-- Some qualities of a category, drawn without replacement. -/
  | pick (category : String) (count filter : Option Expr)
  /-- One quality of a category, drawn by level. -/
  | roll (category : String) (filter : Option Expr)
  /-- The names of the qualities of a category. -/
  | list (category : String) (separator : Separator) (filter : Option Expr)
  /-- All qualities of a category. -/
  | all (category : String)
  /-- An effect to happen after some time. -/
  | schedule (kind : PendingKind) (effect : List EffectExpr) (amount : Expr) (unit : DurationUnit)
  /-- The chance of a challenge, never rolled. -/
  | chance (challenge : Challenge)

end

instance : Inhabited Expr := ⟨.word ""⟩

def Challenge.plain (subject : Expr) (direction : Direction) (target : Expr) (roll : Bool) :
    Challenge :=
  ⟨subject, direction, target, none, none, none, none, roll⟩

namespace Expr

/-- A plain word that is not `target`. -/
def isBareWord : Expr → Bool
  | word text => text != "target"
  | _ => false

mutual

/-- Whether a tree came about only because prose uses the characters of operators: a plain word is
an operand of arithmetic or an item of a condition, as in `well-dressed` or `Fine, thanks`. -/
def readsAsProse : Expr → Bool
  | arith _ lhs rhs =>
    lhs.isBareWord || rhs.isBareWord || lhs.readsAsProse || rhs.readsAsProse
  | neg inner => inner.isBareWord || inner.readsAsProse
  | not inner => inner.readsAsProse
  | and items | or items => anyProse items
  | compare _ lhs rhs => lhs.readsAsProse || rhs.readsAsProse
  | _ => false

/-- Whether an item of a condition is a plain word or reads as prose. -/
def anyProse : List Expr → Bool
  | [] => false
  | item :: items => item.isBareWord || item.readsAsProse || anyProse items

end

/-- Whether an expression decides something. -/
def isCondition : Expr → Bool
  | compare .. | and _ | or _ | not _ | challenge _ => true
  | _ => false

end Expr

namespace Separator

/-- The separator with a name, in any case of letters. -/
def ofWord? (word : String) : Option Separator :=
  match Text.lowerAscii (Text.trimmed word) with
  | "comma" => some comma
  | "pipe" => some pipe
  | "newline" => some newline
  | "space" => some space
  | "and" => some and
  | _ => none

def label : Separator → String
  | comma => "Comma"
  | pipe => "Pipe"
  | newline => "Newline"
  | space => "Space"
  | and => "And"

/-- Joins with commas, and with `and` before the last item. -/
def joinAnd (items : List String) : String :=
  match items.reverse with
  | [] => ""
  | [only] => only
  | last :: init => ", ".intercalate init.reverse ++ " and " ++ last

def join (separator : Separator) (items : List String) : String :=
  match separator with
  | comma => ", ".intercalate items
  | pipe => " | ".intercalate items
  | newline => "\n".intercalate items
  | space => " ".intercalate items
  | and => joinAnd items

end Separator

end QualityScript
