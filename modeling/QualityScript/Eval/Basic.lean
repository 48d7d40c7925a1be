import QualityScript.Eval.Context

/-!
# References and evaluators

A reference is looked up in the states of its scope and in the registry. It never fails: without a
state the definition's kind gives an empty holding, and without either there is zero, an empty text
or the id itself. Texts of authors and of states are templates; they are expanded later with the
quality they belong to bound to `$.`.

Blocks hold expressions, expressions refer to templates, and templates hold blocks. Each kind of
evaluation is written as one step over an evaluator for everything that it meets inside; the steps
are tied together at the end, in `evaluator`.
-/

namespace QualityScript

open Quality Content

inductive Resolution where
  | plain (value : Value)
  /-- A template and the quality that `$.` stands for in it. -/
  | template (text : String) (owner : SelfBinding)

structure Resolved where
  resolution : Resolution
  /-- Neither a state nor a definition is there. -/
  unresolved : Bool

namespace Reference

def pluralOf (name : String) : String := name ++ "s"

/-- The property of a quality, given what is known of it. -/
def resolveProperty (property : Property) (holding : Holding) (kind : Kind)
    (definition : Option Definition) (owner : SelfBinding) : Resolution :=
  match property with
  | .value =>
    match holding with
    | .text text => .template text owner
    | holding => .plain (.int holding.level)
  | .level => .plain (.int holding.level)
  | .changePoints => .plain (.int holding.changePoints)
  | .kind => .plain (.text kind.label)
  | .name =>
    match definition with
    | some d => .template d.name owner
    | none => .plain (.text owner.id)
  | .description =>
    match definition with
    | some d => .template d.description owner
    | none => .plain .empty
  | .plural =>
    match definition with
    | some d => .template (d.plural.getD (pluralOf d.name)) owner
    | none => .plain (.text (pluralOf owner.id))
  | .capital => .plain (.text (Text.capitalize (Value.ofHolding holding).display))
  | .variant key =>
    match definition.bind fun d => d.variants.get? key with
    | some variant => .template variant owner
    | none => .plain .empty

def resolveQuality (registry : Registry) (id : String) (state : Option State)
    (property : Property) : Resolved :=
  let definition := registry.quality? id
  let kind := match state, definition with
    | some s, _ => s.holding.kind
    | none, some d => d.kind
    | none, none => .counter
  let holding := (state.map (·.holding)).getD (Holding.empty kind)
  ⟨resolveProperty property holding kind definition ⟨id, state⟩,
    state.isNone && definition.isNone⟩

/-- What a reference stands for in a frame. -/
def resolve (env : Env) (frame : Frame) (r : Reference) : Resolved :=
  match r.scope with
  | .player => resolveQuality env.registry r.id (env.player.get? r.id) r.property
  | .world => resolveQuality env.registry r.id (env.world.get? r.id) r.property
  | .self =>
    match frame.self with
    | some binding =>
      resolveQuality env.registry binding.id (binding.state <|> env.player.get? binding.id)
        r.property
    | none => ⟨.plain (.int 0), true⟩

end Reference

/-- Whether a block stands in a text or for itself: an assignment shows nothing in a text. -/
inductive Mode where
  | inText
  | standalone
  deriving DecidableEq, Repr

/-- The value of a block. A settled value is not expanded again. -/
structure Outcome where
  value : Value
  settled : Bool

def Outcome.ofValue (value : Value) : Outcome := ⟨value, true⟩

structure Evaluator where
  /-- The contents of a block. -/
  content : Mode → String → Frame → EvalM Outcome
  /-- The text of one expression. -/
  leaf : String → Frame → EvalM Outcome
  /-- An expression. -/
  expr : Expr → Frame → EvalM Value
  /-- A template; with `true` quoted texts between blocks are kept. -/
  expand : Bool → String → Frame → EvalM String

namespace Evaluator

/-- The evaluator that finishes nothing. -/
def unfinished : Evaluator :=
  { content := fun _ _ _ => throw .unfinished
    leaf := fun _ _ => throw .unfinished
    expr := fun _ _ => throw .unfinished
    expand := fun _ _ _ => throw .unfinished }

/-- The value of an expression as a number, zero if it is none. -/
def number (self : Evaluator) (e : Expr) (frame : Frame) : EvalM Float :=
  return (← self.expr e frame).numberOrZero

/-- The template of a text that belongs to a quality, one level deeper; the text itself if that is
too deep or if it has no blocks. -/
def expandOwned (self : Evaluator) (config : Config) (text : String) (owner : SelfBinding)
    (frame : Frame) : EvalM String := do
  if hasBrace text then
    match ← EvalM.descend config frame text with
    | some deeper => self.expand false text (deeper.rebind owner)
    | none => return text
  else return text

end Evaluator

end QualityScript
