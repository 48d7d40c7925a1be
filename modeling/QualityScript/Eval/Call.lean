import QualityScript.Eval.Basic
import QualityScript.Expr.Parser
import QualityScript.Eval.Effect

/-!
# Evaluating challenges and calls

Subject and target of a challenge are evaluated first, then the parameters that the author gave, each
with `target` bound; the settings give the others. A margin of zero or less is reported.

Calls draw from the qualities of a category, or from the random source alone. A filter is evaluated
once for each quality of the category, with `$.` bound to it.
-/

namespace QualityScript.Eval

open Quality Number Randomness

/-- A parameter that the author gave, or its default. -/
def parameter (self : Evaluator) (given : Option Expr) (default : Float) (frame : Frame) :
    EvalM Float :=
  match given with
  | some e => self.number e frame
  | none => return default

def defaultMargin (env : Env) (self : Evaluator) (target : Float) (frame : Frame) : EvalM Float :=
  match env.config.margin with
  | .fixed margin => return margin
  | .multiple factor => return factor * target
  | .expression source =>
    match Expr.parse source with
    | .ok e => self.number e frame
    | .error error => do
      EvalM.record (.noExpression error source)
      return MarginPolicy.defaultFactor * target

def challengePercent (env : Env) (self : Evaluator) (c : Challenge) (frame : Frame) :
    EvalM Float := do
  let skill ← self.number c.subject frame
  let target ← self.number c.target frame
  let inner := frame.withTarget target
  let margin ← match c.margin with
    | some e => self.number e inner
    | none => defaultMargin env self target inner
  let minCap ← parameter self c.minCap env.config.minCap inner
  let maxCap ← parameter self c.maxCap env.config.maxCap inner
  let pivot ← parameter self c.pivot env.config.pivot inner
  if margin ≤ 0 then EvalM.record (.stepMargin margin c.direction target)
  match Challenge.chance? c.direction skill target ⟨margin, minCap, maxCap, pivot⟩ with
  | some percent => return percent
  | none => throw .unorderedCaps

/-- The qualities among `candidates` that a filter lets through. -/
def passing (self : Evaluator) (filter : Expr) (frame : Frame) :
    List Definition → EvalM (List String)
  | [] => return []
  | d :: rest => do
    let value ← self.expr filter (frame.rebind ⟨d.id, none⟩)
    let ids ← passing self filter frame rest
    return if value.isTruthy then d.id :: ids else ids

def candidates (env : Env) (self : Evaluator) (category : String) (filter : Option Expr)
    (frame : Frame) : EvalM (List String) :=
  let members := env.registry.inCategory category
  match filter with
  | some filter => passing self filter frame members
  | none => return members.map (·.id)

/-- The name of a quality with its blocks expanded; its id if it has no name. -/
def displayName (env : Env) (self : Evaluator) (frame : Frame) (id : String) : EvalM String :=
  match env.registry.quality? id with
  | none => return id
  | some d => if d.name.isEmpty then return id else self.expandOwned env.config d.name ⟨id, none⟩ frame

/-- True with a chance in percent. -/
def random (env : Env) (self : Evaluator) (chance : Expr) (invert : Bool) (frame : Frame) :
    EvalM Value := do
  let percent := Challenge.between 0 100 (← self.number chance frame)
  let percent := if invert then 100 - percent else percent
  let drawn ← EvalM.draw (Randomness.percent env.attempts)
  return .bool (drawn < percent)

/-- How many qualities to pick, one if nothing is said. -/
def pickCount (self : Evaluator) (count : Option Expr) (frame : Frame) : EvalM Nat :=
  match count with
  | some e => return (roundUnsigned (← self.number e frame)).toNat
  | none => return 1

def pick (env : Env) (self : Evaluator) (category : String) (count filter : Option Expr)
    (frame : Frame) : EvalM Value := do
  let ids ← candidates env self category filter frame
  let count ← pickCount self count frame
  if ids.isEmpty then EvalM.record (.nothingPicked category)
  return .ids (← EvalM.draw (chooseMany env.attempts count ids))

/-- The weight of a quality: the player's level, none below zero. -/
def weight (env : Env) (id : String) : Nat := (env.player.level id).toInt.toNat

/-- One quality of a category, drawn by weight. -/
def roll (env : Env) (self : Evaluator) (category : String) (filter : Option Expr)
    (frame : Frame) : EvalM Value := do
  let ids ← candidates env self category filter frame
  match ← EvalM.draw (weighted env.attempts (ids.map (weight env))) with
  | some place => return .text (ids.getD place "")
  | none =>
    EvalM.record (.nothingRolled category)
    return .empty

def call (env : Env) (self : Evaluator) (c : Call) (frame : Frame) : EvalM Value := do
  match c with
  | .random chance invert => random env self chance invert frame
  | .pick category count filter => pick env self category count filter frame
  | .roll category filter => roll env self category filter frame
  | .list category separator filter =>
    let ids ← candidates env self category filter frame
    let names ← ids.mapM (displayName env self frame)
    return .text (separator.join names)
  | .all category => return .ids ((env.registry.inCategory category).map (·.id))
  | .schedule kind effect amount unit =>
    let changes ← effects env self effect frame
    let amount ← self.number amount frame
    return .pending ⟨kind, changes, unit.toMilliseconds amount⟩
  | .chance challenge => return .int (roundWord (← challengePercent env self challenge frame))

end QualityScript.Eval
