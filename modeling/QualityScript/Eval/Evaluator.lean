import QualityScript.Eval.Call
import QualityScript.Eval.Block

/-!
# Evaluating expressions

Operands are evaluated from left to right. A conjunction stops at the first item that is false, and a
disjunction at the first that is true. A sum of things that are not both numbers joins their texts;
in other arithmetic what is no number counts as zero, and so does every quotient by zero.

At the end the steps are tied together. The evaluator of `fuel + 1` makes one step and leaves what it
meets inside to the evaluator of `fuel`; the evaluator of zero finishes nothing. Whatever an evaluator
finishes, every evaluator with more fuel finishes in the same way.
-/

namespace QualityScript.Eval

open Number

/-- The value of a literal; blocks inside a text are expanded one level deeper. -/
def literal (env : Env) (self : Evaluator) (value : Literal) (frame : Frame) : EvalM Value := do
  match value with
  | .text text =>
    if hasBlocks text then
      match ← EvalM.descend env.config frame text with
      | some deeper => return .text (← self.expand false text deeper)
      | none => return .text text
    else return .text text
  | value => return value.value

def reference (env : Env) (self : Evaluator) (r : Reference) (frame : Frame) : EvalM Value := do
  let resolved := r.resolve env frame
  if resolved.unresolved then EvalM.record (.unresolved r)
  match resolved.resolution with
  | .plain value => return value
  | .template text owner => return .text (← self.expandOwned env.config text owner frame)

/-- The value of an alias; an unbound one is an empty text. -/
def aliasValue (name : String) : EvalM Value := do
  match ← EvalM.alias? name with
  | some value => return value
  | none =>
    EvalM.record (.unboundAlias name)
    return .empty

def word (text : String) (frame : Frame) : Value :=
  match frame.target with
  | some target => if text = "target" then .ofFloat target else .text text
  | none => .text text

/-- The sum of two numbers, or else the two texts joined. -/
def sum (lhs rhs : Value) : Value :=
  match lhs.number?, rhs.number? with
  | some a, some b => .ofFloat (a + b)
  | _, _ => .text (lhs.display ++ rhs.display)

def arith (op : ArithOp) (lhs rhs : Value) : EvalM Value := do
  match op with
  | .add => return sum lhs rhs
  | .sub => return .ofFloat (lhs.numberOrZero - rhs.numberOrZero)
  | .mul => return .ofFloat (lhs.numberOrZero * rhs.numberOrZero)
  | .div =>
    if rhs.numberOrZero == 0 then
      EvalM.record (.divisionByZero lhs rhs)
      return .int 0
    else return .ofFloat (lhs.numberOrZero / rhs.numberOrZero)

/-- Whether all items are true; those after the first false one are not evaluated. -/
def allTrue (self : Evaluator) (frame : Frame) : List Expr → EvalM Bool
  | [] => return true
  | e :: rest => do if (← self.expr e frame).isTruthy then allTrue self frame rest else return false

def anyTrue (self : Evaluator) (frame : Frame) : List Expr → EvalM Bool
  | [] => return false
  | e :: rest => do if (← self.expr e frame).isTruthy then return true else anyTrue self frame rest

/-- The value of a challenge: passed or failed if it is rolled, else its chance. -/
def challenge (env : Env) (self : Evaluator) (c : Challenge) (frame : Frame) : EvalM Value := do
  let percent ← challengePercent env self c frame
  if c.roll then
    let drawn ← EvalM.draw (Randomness.percent env.attempts)
    return .bool (drawn < percent)
  else return .int (roundWord percent)

/-- A whole number between two bounds in either order. -/
def range (env : Env) (lo hi : Int64) : EvalM Value :=
  let (lo, hi) := if lo ≤ hi then (lo, hi) else (hi, lo)
  return .int (← EvalM.draw (Randomness.between env.attempts lo hi))

def expr (env : Env) (self : Evaluator) (e : Expr) (frame : Frame) : EvalM Value := do
  match e with
  | .literal value => literal env self value frame
  | .ref r => reference env self r frame
  | .aliasName name => aliasValue name
  | .word text => return word text frame
  | .call c => call env self c frame
  | .neg inner => return .ofFloat (-(← self.number inner frame))
  | .not inner => return .bool (!(← self.expr inner frame).isTruthy)
  | .arith op lhs rhs =>
    let lhs ← self.expr lhs frame
    let rhs ← self.expr rhs frame
    arith op lhs rhs
  | .compare op lhs rhs =>
    let lhs ← self.expr lhs frame
    let rhs ← self.expr rhs frame
    return .bool (op.compare lhs rhs)
  | .and items => return .bool (← allTrue self frame items)
  | .or items => return .bool (← anyTrue self frame items)
  | .challenge c => challenge env self c frame
  | .effect list => return .effect (← effects env self list frame)
  | .range lo hi =>
    let lo := roundWord (← self.number lo frame)
    let hi := roundWord (← self.number hi frame)
    range env lo hi

end QualityScript.Eval

namespace QualityScript

def Evaluator.step (env : Env) (self : Evaluator) : Evaluator :=
  { content := Eval.content env self
    leaf := Eval.leaf env self
    expr := Eval.expr env self
    expand := Eval.expand env self }

/-- The evaluator that nests at most `fuel` steps. -/
def evaluator (env : Env) : Nat → Evaluator
  | 0 => .unfinished
  | fuel + 1 =>
    { content := fun mode input frame => Eval.content env (evaluator env fuel) mode input frame
      leaf := fun input frame => Eval.leaf env (evaluator env fuel) input frame
      expr := fun e frame => Eval.expr env (evaluator env fuel) e frame
      expand := fun quotesKept input frame =>
        Eval.expand env (evaluator env fuel) quotesKept input frame }

theorem evaluator_succ (env : Env) (fuel : Nat) :
    evaluator env (fuel + 1) = (evaluator env fuel).step env := rfl

end QualityScript
