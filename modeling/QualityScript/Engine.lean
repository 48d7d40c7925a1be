import QualityScript.Render
import QualityScript.Content.File
import QualityScript.Randomness.Source

/-!
# The engine

An engine joins content with settings. Each call reads states that it is given, evaluates a text, a
condition, a block, a challenge, a quality or an event against them, and changes none of them: effects
are returned and applied by the caller.

A call draws from the random source that it is given, else from the seed of the settings. Where the
settings have no seed, the system gives every such call words of its own. Nothing is said of them
here: the engine carries some source for them, and what is stated for every engine holds for each such
call, whatever it draws.

A call is told how many steps it may nest. Where nothing recurses without end, every large enough
number gives the same result.
-/

namespace QualityScript

open Quality Content Randomness

structure Engine where
  registry : Registry
  config : Config
  /-- What a call draws that is given no source, where the settings have no seed. -/
  entropy : Source

structure Snapshot where
  player : States
  world : Option States

/-- What a call may be told: the quality bound to `$.`, the depth to start from, and the random
source. -/
structure CallOptions where
  self : Option SelfBinding
  depth : Nat
  source : Option Source

def CallOptions.none : CallOptions := ⟨.none, 0, .none⟩

/-- The result of a call, and its memory at the end. -/
structure Evaluation (α : Type) where
  result : Except Abort α
  memory : Memory

namespace Evaluation

def diagnostics {α : Type} (e : Evaluation α) : List Diagnostic := e.memory.diagnostics

def isClean {α : Type} (e : Evaluation α) : Bool := e.diagnostics.isEmpty

def map {α β : Type} (f : α → β) (e : Evaluation α) : Evaluation β := ⟨e.result.map f, e.memory⟩

end Evaluation

structure OptionOutcome where
  passed : Bool
  /-- The chance in percent, rounded, where the option has a challenge. -/
  chance : Option Float
  effect : Effect
  pending : List PendingEvent

namespace Engine

/-- The source of a call that was given none. -/
def fallbackSource (engine : Engine) : Source :=
  match engine.config.seed with
  | some seed => .seeded seed
  | none => engine.entropy

def env (engine : Engine) (fuel : Nat) (states : Snapshot) : Env :=
  { player := states.player, world := states.world.getD .empty, registry := engine.registry,
    config := engine.config, attempts := fuel }

/-- Runs an evaluation with a fresh memory. -/
def run {α : Type} (engine : Engine) (fuel : Nat) (states : Snapshot) (options : CallOptions)
    (m : Env → Evaluator → Frame → EvalM α) : Evaluation α :=
  let env := engine.env fuel states
  let source := options.source.getD engine.fallbackSource
  let (result, memory) :=
    (m env (evaluator env fuel) (.new options.depth options.self)).runOn (.fresh source)
  ⟨result, memory⟩

/-- The contents of a text that is one block, else the text. -/
def blockContent (input : String) : String := (Template.blockContent? input).getD input

/-- Whether a condition holds; a blank one does. -/
def check (self : Evaluator) (condition : String) (frame : Frame) : EvalM Bool := do
  let content := blockContent condition
  if (Text.trimmed content).isEmpty then return true
  else return (← self.content .standalone content frame).value.isTruthy

def evaluateText (engine : Engine) (fuel : Nat) (template : String) (states : Snapshot)
    (options : CallOptions) : Evaluation String :=
  engine.run fuel states options fun _ self frame => self.expand false template frame

/-- Whether a condition such as `$clues >= 5` or `{$clues >= 5}` holds. -/
def evaluateCondition (engine : Engine) (fuel : Nat) (condition : String) (states : Snapshot)
    (options : CallOptions) : Evaluation Bool :=
  engine.run fuel states options fun _ self frame => check self condition frame

/-- The value of a template that is one block; the text of any other. -/
def evaluateBlock (engine : Engine) (fuel : Nat) (template : String) (states : Snapshot)
    (options : CallOptions) : Evaluation Value :=
  engine.run fuel states options fun _ self frame => do
    match Template.blockContent? template with
    | some content => return (← self.content .standalone content frame).value
    | none => return .text (← self.expand false template frame)

/-- The challenge that a text is, if it is one or a call for its chance. -/
def challengeOf? (input : String) : Option Challenge :=
  match Expr.parse (Text.trimmed (blockContent input)) with
  | .ok (.challenge c) => some c
  | .ok (.call (.chance c)) => some c
  | _ => none

/-- The rounded chance of a challenge, none if the text is no challenge. -/
def skillCheckChance (engine : Engine) (fuel : Nat) (input : String) (states : Snapshot)
    (options : CallOptions) : Evaluation (Option Float) :=
  engine.run fuel states options fun env self frame => do
    match challengeOf? input with
    | some c => return some (Number.roundFloat (← Eval.challengePercent env self c frame))
    | none => return none

/-- Shows a quality by its definition, with a state of its own or the player's. -/
def renderDefinition (engine : Engine) (fuel : Nat) (definition : Definition)
    (state : Option State) (states : Snapshot) (options : CallOptions) :
    Evaluation RenderedQuality :=
  engine.run fuel states options fun env self frame =>
    RenderedQuality.render env self definition.id (some definition) state frame.depth

def renderQuality (engine : Engine) (fuel : Nat) (id : String) (states : Snapshot)
    (options : CallOptions) : Evaluation RenderedQuality :=
  engine.run fuel states options fun env self frame =>
    RenderedQuality.render env self id (engine.registry.quality? id) none frame.depth

/-- Whether all conditions hold; those after the first that fails are not evaluated. -/
def checkAll (self : Evaluator) (frame : Frame) : List String → EvalM Bool
  | [] => return true
  | condition :: rest => do
    if ← check self condition frame then checkAll self frame rest else return false

/-- Whether an event exists and all of its requirements hold. -/
def isEventAvailable (engine : Engine) (fuel : Nat) (id : String) (states : Snapshot)
    (options : CallOptions) : Evaluation Bool :=
  engine.run fuel states options fun _ self frame =>
    match engine.registry.event? id with
    | some event => checkAll self frame event.requirements
    | none => return false

/-- The chance of the challenge of an option. A text that is no challenge is reported and never
passed. -/
def optionChance (env : Env) (self : Evaluator) (challenge : String) (frame : Frame) :
    EvalM Float :=
  match Expr.parseChallenge (Text.trimmed (blockContent challenge)) with
  | .ok c => Eval.challengePercent env self c frame
  | .error error => do
    EvalM.record (.noExpression error challenge)
    return 0

def rollOption (env : Env) (self : Evaluator) (challenge : Option String) (frame : Frame) :
    EvalM (Option Float × Bool) :=
  match challenge with
  | none => return (none, true)
  | some challenge => do
    let percent ← optionChance env self challenge frame
    let drawn ← EvalM.draw (Randomness.percent env.attempts)
    return (some percent, drawn < percent)

/-- The changes, at once and later, that scripts ask for. -/
def runScripts (self : Evaluator) (frame : Frame) :
    List String → EvalM (Effect × List PendingEvent)
  | [] => return ([], [])
  | script :: rest => do
    let value := (← self.content .standalone (blockContent script) frame).value
    let (effect, pending) ← runScripts self frame rest
    match value with
    | .effect changes => return (changes ++ effect, pending)
    | .pending event => return (effect, event :: pending)
    | _ => return (effect, pending)

def chooseOption (env : Env) (self : Evaluator) (o : EventOption) (frame : Frame) :
    EvalM OptionOutcome := do
  let (chance, passed) ← rollOption env self o.challenge frame
  let (effect, pending) ←
    runScripts self frame (if passed then o.successEffects else o.failureEffects)
  return { passed, chance := chance.map Number.roundFloat, effect, pending }

/-- Rolls the challenge of an option and evaluates the effects of passing or failing it. None if the
event or the option does not exist. -/
def resolveOption (engine : Engine) (fuel : Nat) (event option : String) (states : Snapshot)
    (options : CallOptions) : Evaluation (Option OptionOutcome) :=
  engine.run fuel states options fun env self frame => do
    match (engine.registry.event? event).bind fun e => e.option? option with
    | some o => return some (← chooseOption env self o frame)
    | none => return none

end Engine

/-! ## Building an engine -/

inductive BuildError where
  | content (error : FileError)
  | config (error : ConfigError)
  /-- A registry of its own cannot be combined with other content. -/
  | conflictingContent
  deriving DecidableEq, Repr

def BuildError.message : BuildError → String
  | content error => "content error: " ++ error.message
  | config error => "config error: " ++ error.message
  | conflictingContent => "a custom registry cannot be combined with content files"

structure Setup where
  registry : Option Registry
  content : Option Library
  /-- Content files, laid over the content in order. -/
  contentFiles : List FileText
  config : Option Config
  /-- A settings file; it is not read where settings are given. -/
  configFile : Option FileText
  maxDepth : Option Nat
  seed : Option UInt64
  margin : Option MarginPolicy

namespace Setup

def empty : Setup := ⟨none, none, [], none, none, none, none, none⟩

/-- The settings before any of them is overridden. -/
def baseConfig (setup : Setup) : Except BuildError Config :=
  match setup.config, setup.configFile with
  | some config, _ => .ok config
  | none, some file => (Config.ofFile file).mapError .config
  | none, none => .ok .default

/-- The settings with those that are given on their own. -/
def finalConfig (setup : Setup) (config : Config) : Config :=
  { config with
    maxDepth := setup.maxDepth.getD config.maxDepth
    seed := setup.seed <|> config.seed
    margin := setup.margin.getD config.margin }

def loadFiles (library : Library) : List FileText → Except BuildError Library
  | [] => .ok library
  | file :: rest =>
    match Library.ofFile file with
    | .ok loaded => loadFiles (library.merge loaded) rest
    | .error error => .error (.content error)

def buildRegistry (setup : Setup) : Except BuildError Registry :=
  match setup.registry with
  | some registry =>
    if setup.content.isSome || !setup.contentFiles.isEmpty then .error .conflictingContent
    else .ok registry
  | none => (loadFiles (setup.content.getD .empty) setup.contentFiles).map (·.registry)

/-- Builds an engine; faults of the settings are found before those of the content. -/
def build (setup : Setup) (entropy : Source) : Except BuildError Engine :=
  match setup.baseConfig with
  | .error error => .error error
  | .ok config =>
    match setup.buildRegistry with
    | .error error => .error error
    | .ok registry => .ok ⟨registry, setup.finalConfig config, entropy⟩

end Setup

end QualityScript
