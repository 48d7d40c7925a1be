import QualityScript.Engine
import QualityScript.Quality.State
import QualityScript.Text.Case
import QualityScript.Expr.Token
import QualityScript.Tool.Basic

/-!
# The preview shell

An author tries scripts line by line against states that the shell keeps: a line is a command word
and the rest of the line. Every evaluation is given the random source of the session, which has the
seed 42 where the arguments name no other and which a command can seed again; that of the engine is
never drawn from. The only commands that change states are `set` and `choose`.
-/

namespace QualityScript.Tool.Shell

open Quality Randomness Text Number

def usage : List String :=
  ["Preview - interactive evaluation shell for testing content scripts.",
   "",
   "Usage: preview --content <path> [--config <file.ron>] [--state <file.ron>] [--seed <n>]",
   "",
   "  --content <path>   Path to a RON content file",
   "  --config <path>    Engine config file (optional)",
   "  --state <path>     RON map of quality id to state (optional)",
   "  --seed <n>         Initial RNG seed (default: 42)"]

def help : List String :=
  ["Commands:",
   "  text <template>        Substitute every block",
   "  cond <condition>       Evaluate a condition",
   "  block <template>       Typed value of a single block",
   "  chance <challenge>     Skill-check percentage",
   "  render <quality>       Render a quality",
   "  event <id>             Check a storylet's requirements",
   "  choose <event> <opt>   Resolve an option and apply its effect",
   "  set <$id|#id> <value>  Set a quality level or text value",
   "  state                  List quality states",
   "  seed <n>               Set RNG seed",
   "  help                   Show this help",
   "  quit                   Exit"]

def prompt : String := "preview> "

/-! ## Commands -/

inductive Command where
  | quit
  | help
  | text (template : String)
  | condition (source : String)
  | block (template : String)
  | chance (challenge : String)
  | render (id : String)
  | event (id : String)
  | choose (words : List String)
  | set (rest : String)
  | state
  | seed (rest : String)
  | unknown (word : String)
  deriving DecidableEq, Repr

/-- A text up to its first blank and after it, if it has one. -/
def splitBlank? (text : List Char) : Option (String × String) :=
  match text.dropWhile fun c => !isBlank c with
  | [] => none
  | _ :: rest => some (String.ofList (text.takeWhile fun c => !isBlank c), String.ofList (trim rest))

def words (text : List Char) : List String :=
  match _ : trimStart text with
  | [] => []
  | c :: rest =>
    String.ofList (c :: rest.takeWhile fun c => !isBlank c) :: words (rest.dropWhile fun c => !isBlank c)
termination_by text.length
decreasing_by
  have h₁ : (rest.dropWhile fun c => !isBlank c).length ≤ rest.length :=
    (List.dropWhile_sublist _).length_le
  have h₂ : (trimStart text).length ≤ text.length := trimStart_length_le text
  simp_all only [List.length_cons]
  omega

def Command.ofWord (word rest : String) : Command :=
  match word with
  | "quit" | "exit" | "q" => quit
  | "help" | "h" | "?" => help
  | "text" => text rest
  | "cond" => condition rest
  | "block" => block rest
  | "chance" => chance rest
  | "render" => render rest
  | "event" => event rest
  | "choose" => choose (words rest.toList)
  | "set" => set rest
  | "state" => state
  | "seed" => seed rest
  | word => unknown word

/-- The command of a line; a blank line has none. -/
def Command.ofLine? (line : String) : Option Command :=
  let text := trim line.toList
  if text.isEmpty then none
  else
    match splitBlank? text with
    | some (word, rest) => some (ofWord (lowerText word) rest)
    | none => some (ofWord (lowerText (String.ofList text)) "")

/-! ## Sessions -/

structure Session where
  engine : Engine
  states : World
  seed : UInt64
  source : Source

/-- What follows from a line: output and the next session, or output and the end. -/
inductive Reply where
  | next (output : List String) (session : Session)
  | done (output : List String)
  /-- The evaluation was broken off. -/
  | broken

namespace Session

def snapshot (s : Session) : Snapshot := ⟨s.states.player, some s.states.world⟩

def options (s : Session) : CallOptions := ⟨none, 0, some s.source⟩

def diagnosticLines (diagnostics : List Diagnostic) : List String :=
  diagnostics.map fun d => "[Diagnostic] " ++ d.display

/-- Prints a result and what was reported, and keeps the random source. -/
def answer {α : Type} (s : Session) (e : Evaluation α)
    (print : α → List String → List String) (change : α → World → World) : Reply :=
  match e.result with
  | .ok a =>
    .next (print a (diagnosticLines e.diagnostics))
      { s with source := e.memory.source, states := change a s.states }
  | .error _ => .broken

/-- Prints a result in front of what was reported; no state changes. -/
def report {α : Type} (s : Session) (e : Evaluation α) (print : α → List String) : Reply :=
  s.answer e (fun a reported => print a ++ reported) fun _ states => states

def say (s : Session) (output : List String) : Reply := .next output s

def chanceLines (challenge : String) : Option Float → List String
  | some percent => [plainText percent ++ "%"]
  | none => ["Not a challenge: " ++ challenge]

/-- A line for a text, none if the text is empty. -/
def lineUnlessEmpty (label text : String) : List String :=
  if text.isEmpty then [] else [label ++ text]

def renderedLines (r : RenderedQuality) : List String :=
  ["", "--- " ++ r.name ++ " (" ++ r.kind.label ++ ") ---",
    "Level: " ++ Value.wordText r.holding.level ++ "  CP: " ++ Value.wordText r.holding.changePoints]
    ++ lineUnlessEmpty "Value: " r.holding.textValue
    ++ lineUnlessEmpty "" r.description
    ++ (r.variants.map fun (key, text) => "  " ++ key ++ ": " ++ text)
    ++ lineUnlessEmpty "Bonus: " r.bonus
    ++ ["--- End ---", ""]

def eventLines (s : Session) (id : String) (available : Bool) : List String :=
  match s.engine.registry.event? id with
  | some event =>
    (event.name ++ ": " ++ if available then "available" else "locked")
      :: event.options.map fun o => "  option " ++ o.id ++ ": " ++ o.name
  | none => ["Event '" ++ id ++ "' not found."]

/-! ### Choosing an option -/

def challengeLine (outcome : OptionOutcome) : String :=
  match outcome.chance with
  | some chance =>
    (if outcome.passed then "Success" else "Failure") ++ " (" ++ plainText chance ++ "% chance)"
  | none => "No challenge."

def changeLine (c : Change) : String :=
  "  " ++ c.scope.marker ++ c.id ++ " " ++ c.op.symbol ++ " " ++ c.amount.display ++ ": "
    ++ Inspect.holding c.before ++ " -> " ++ Inspect.holding c.after

def pendingLine (p : PendingEvent) : String :=
  "  pending " ++ p.kind.label ++ " in " ++ toString p.duration.toNat ++ " ms ("
    ++ toString p.effect.length ++ " changes)"

def outcomeLines (outcome : OptionOutcome) : List String :=
  challengeLine outcome :: outcome.effect.map changeLine ++ outcome.pending.map pendingLine

/-- Chooses an option and makes its changes. What was reported comes first. -/
def choose (s : Session) (fuel : Nat) (event option : String) : Reply :=
  s.answer (s.engine.resolveOption fuel event option s.snapshot s.options)
    (fun outcome reported =>
      reported ++ match outcome with
        | some outcome => outcomeLines outcome
        | none => ["No option '" ++ option ++ "' on event '" ++ event ++ "'."])
    fun outcome states =>
      match outcome with
      | some outcome => applyEffect outcome.effect states
      | none => states

/-! ### Setting and listing states -/

def holdingOf (kind : Kind) (level : Int64) : Holding :=
  match kind with
  | .pyramidal => .pyramidal level 0
  | .item => .item level
  | .equipable => .equipable level none
  | .counter | .text => .counter level

/-- What a typed value means for a quality of a kind, or of a kind that is not known. Only texts may
be something else than a number. -/
def holdingFor? (kind : Option Kind) (value : String) : Option Holding :=
  match kind, readWord? value.toList with
  | some .text, _ | none, none => some (.text value)
  | some kind, some level => some (holdingOf kind level)
  | none, some level => some (.counter level)
  | some _, none => none

/-- Sets a quality: `#id` in the world, any other name for the player. -/
def set (s : Session) (target value : String) : Reply :=
  let inWorld := target.toList.head? == some '#'
  let id := String.ofList
    (if inWorld then target.toList.drop 1 else target.toList.dropWhile (· == '$'))
  let states := if inWorld then s.states.world else s.states.player
  let kind := ((states.get? id).map (·.holding.kind)) <|>
    (s.engine.registry.quality? id).map (·.kind)
  match holdingFor? kind value with
  | none => s.say ["'" ++ id ++ "' needs a number"]
  | some holding =>
    let states := states.insert (.new id holding)
    .next ["Set " ++ target ++ " = " ++ value]
      { s with
        states := if inWorld then { s.states with world := states }
          else { s.states with player := states } }

/-- One line for each state, in the order of ids. -/
def stateLines (marker : String) (states : States) : List String :=
  (states.toList.mergeSort fun a b => decide (a.id ≤ b.id)).map fun state =>
    "  " ++ marker ++ state.id ++ " = " ++ (Value.ofHolding state.holding).display

/-! ### The seed -/

def reseed (s : Session) (rest : String) : Reply :=
  if rest.isEmpty then s.say ["Current seed: " ++ toString s.seed.toNat]
  else
    match readUnsignedWord? rest.toList with
    | some seed =>
      .next ["Seed set to " ++ toString seed.toNat] { s with seed, source := .seeded seed }
    | none => s.say ["Invalid seed: " ++ rest]

def run (s : Session) (fuel : Nat) : Command → Reply
  | .quit => .done ["Goodbye."]
  | .help => s.say Shell.help
  | .text template => s.report (s.engine.evaluateText fuel template s.snapshot s.options) ([·])
  | .condition source =>
    s.report (s.engine.evaluateCondition fuel source s.snapshot s.options) fun b => [Inspect.bool b]
  | .block template =>
    s.report (s.engine.evaluateBlock fuel template s.snapshot s.options) fun v => [Inspect.value v]
  | .chance challenge =>
    s.report (s.engine.skillCheckChance fuel challenge s.snapshot s.options) (chanceLines challenge)
  | .render id =>
    if id.isEmpty then s.say ["Usage: render <quality>"]
    else s.report (s.engine.renderQuality fuel id s.snapshot s.options) renderedLines
  | .event id =>
    if id.isEmpty then s.say ["Usage: event <id>"]
    else s.report (s.engine.isEventAvailable fuel id s.snapshot s.options) (s.eventLines id)
  | .choose (event :: option :: _) => s.choose fuel event option
  | .choose _ => s.say ["Usage: choose <event> <option>"]
  | .set rest =>
    match splitBlank? rest.toList with
    | some (target, value) => s.set target value
    | none => s.say ["Usage: set <$id|#id> <value>"]
  | .state => s.say (stateLines "$" s.states.player ++ stateLines "#" s.states.world)
  | .seed rest => s.reseed rest
  | .unknown word =>
    s.say ["Unknown command: '" ++ word ++ "'. Type 'help' for available commands."]

def reply (s : Session) (fuel : Nat) (line : String) : Reply :=
  match Command.ofLine? line with
  | some command => s.run fuel command
  | none => .next [] s

/-- The output of a session over all lines of its input, each after a prompt. -/
def transcript (fuel : Nat) : Session → List String → Printout
  | _, [] => .success prompt
  | s, line :: rest =>
    match s.reply fuel line with
    | .next output s => (transcript fuel s rest).after (prompt ++ lines output)
    | .done output => .success (prompt ++ lines output)
    | .broken => .broken prompt

end Session

/-! ## Starting a session -/

structure Options where
  content : Option String
  config : Option String
  state : Option String
  seed : UInt64

def Options.none : Options := ⟨.none, .none, .none, 42⟩

/-- Reads the arguments; the first that is not understood is an error. -/
def Options.read (options : Options) : List String → Except String Options
  | "--content" :: path :: rest => { options with content := some path }.read rest
  | "--config" :: path :: rest => { options with config := some path }.read rest
  | "--state" :: path :: rest => { options with state := some path }.read rest
  | "--seed" :: seed :: rest =>
    { options with seed := (readUnsignedWord? seed.toList).getD 42 }.read rest
  | unknown :: _ => .error unknown
  | [] => .ok options

/-- The states to start with, and what is said where a file does not give them. -/
def startStates (disk : Disk) : Option String → States × List String
  | none => (.empty, [])
  | some path =>
    match (disk path).text with
    | none => (.empty, ["ERROR reading state " ++ path ++ ": " ++ unreadableCause])
    | some text =>
      match States.ofText? text with
      | some states => (states, [])
      | none => (.empty, ["ERROR parsing state " ++ path ++ ": " ++ malformedMessage])

def greeting (s : Session) : List String :=
  ["Loaded " ++ toString s.states.player.size ++ " local qualities",
   "Seed: " ++ toString s.seed.toNat,
   "Type 'help' for commands.",
   ""]

/-- A session that can start, with what is said first on the error output, or the run that ends at
once. -/
def start (entropy : Source) (disk : Disk) (arguments : List String) :
    Except Printout (Session × List String) :=
  if arguments.head?.all fun first => first == "--help" || first == "-h" then
    .error (.success (lines usage))
  else
    match Options.none.read arguments with
    | .error unknown => .error ⟨1, lines usage, lines ["Unknown argument: " ++ unknown]⟩
    | .ok options =>
      let setup := { Setup.empty with
        contentFiles := (options.content.map fun path => (disk path).text).toList
        configFile := options.config.map fun path => (disk path).text }
      match setup.build entropy with
      | .error error => .error (.failure ["ERROR: " ++ error.message])
      | .ok engine =>
        let (player, errors) := startStates disk options.state
        .ok (⟨engine, ⟨player, .empty⟩, options.seed, .seeded options.seed⟩, errors)

/-- The lines of an input. An end of line at the end of the input starts no further line. -/
def inputLines : List Char → List (List Char)
  | [] => []
  | c :: rest =>
    if c = '\n' then [] :: inputLines rest
    else
      match inputLines rest with
      | [] => [[c]]
      | line :: lines => (c :: line) :: lines

def run (fuel : Nat) (entropy : Source) (disk : Disk) (arguments : List String) (input : String) :
    Printout :=
  match start entropy disk arguments with
  | .error printout => printout
  | .ok (session, errors) =>
    let printout :=
      (session.transcript fuel ((inputLines input.toList).map String.ofList)).after (lines (greeting session))
    { printout with errors := lines errors ++ printout.errors }

end QualityScript.Tool.Shell
