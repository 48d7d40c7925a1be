import QualityScript.Eval.Basic

/-!
# Computing effects

An effect only says what it would change. Within one effect a later change of a quality starts from
what an earlier one left; the first starts from the state, or from nothing of the quality's kind.
-/

namespace QualityScript.Eval

open Quality

/-- A quality that a change writes to. The holding is given for a quality bound with its state. -/
structure Aim where
  scope : Scope
  id : String
  holding : Option Holding

/-- The qualities that an effect changes. A change of `$.` writes to the player's states. -/
def aims (env : Env) (frame : Frame) : EffectTarget → EvalM (List Aim)
  | .quality reference =>
    match reference.scope, frame.self with
    | .self, some binding => return [⟨.player, binding.id, binding.state.map (·.holding)⟩]
    | .self, none => do
      EvalM.record .effectOnNothing
      return []
    | scope, _ => return [⟨scope, reference.id, none⟩]
  | .category name => do
    let members := env.registry.inCategory name
    if members.isEmpty then EvalM.record (.emptyCategory name)
    return members.map fun d => ⟨.player, d.id, none⟩

/-- The kind of a quality that has no state: the one defined, else a text for a text that spells no
number. -/
def inferredKind (env : Env) (id : String) (amount : Value) : Kind :=
  match env.registry.quality? id with
  | some d => d.kind
  | none =>
    match amount with
    | .text s => if (Value.readNumber? s).isNone then .text else .counter
    | _ => .counter

def currentHolding (env : Env) (scope : Scope) (id : String) (amount : Value) : Holding :=
  let states := match scope with
    | .world => env.world
    | .player | .self => env.player
  match states.get? id with
  | some state => state.holding
  | none => .empty (inferredKind env id amount)

/-- The changes so far, and what they leave of each quality. -/
structure Progress where
  latest : List ((Scope × String) × Holding)
  changes : Effect

namespace Progress

def start : Progress := ⟨[], []⟩

def before (p : Progress) (env : Env) (aim : Aim) (amount : Value) : Holding :=
  match withKey? Prod.fst (aim.scope, aim.id) p.latest with
  | some (_, holding) => holding
  | none => aim.holding.getD (currentHolding env aim.scope aim.id amount)

def add (p : Progress) (env : Env) (e : EffectExpr) (amount : Value) (description : Option String)
    (aim : Aim) : Progress :=
  let before := p.before env aim amount
  let after := nextHolding before e.op amount
  { latest := upsert Prod.fst ((aim.scope, aim.id), after) p.latest
    changes := p.changes ++
      [{ scope := aim.scope, id := aim.id, op := e.op, amount, before, after, description,
         source := e.notes.source }] }

end Progress

/-- The amount of a change; `++` and `--` change by one. -/
def amount (self : Evaluator) (given : Option Expr) (frame : Frame) : EvalM Value :=
  match given with
  | some e => self.expr e frame
  | none => return .int 1

def description (self : Evaluator) (given : Option String) (frame : Frame) :
    EvalM (Option String) :=
  match given with
  | some text => return some (← self.expand false text frame)
  | none => return none

def effectsFrom (env : Env) (self : Evaluator) (frame : Frame) :
    Progress → List EffectExpr → EvalM Progress
  | p, [] => return p
  | p, e :: rest => do
    let amount ← amount self e.amount frame
    let description ← description self e.notes.description frame
    let aims ← aims env frame e.target
    effectsFrom env self frame (aims.foldl (fun p aim => p.add env e amount description aim) p) rest

def effects (env : Env) (self : Evaluator) (list : List EffectExpr) (frame : Frame) :
    EvalM Effect :=
  return (← effectsFrom env self frame .start list).changes

end QualityScript.Eval
