import QualityScript.Tool.Basic
import QualityScript.Challenge.Curve
import QualityScript.Config
import QualityScript.Number.Text

/-!
# The curve of a challenge as a table

One line for every skill in a range: the skill, the chance, a bar, and a mark where the skill is
nearest to the target. What the arguments leave out is taken from the settings, and the range from
the target and the margin.
-/

namespace QualityScript.Tool.Curve

open Number Challenge

def usage : String :=
  "Usage: chance_curve --target <n> [--op >>|<<|><|<>] [--margin <n>] [--pivot <n>] [--min <n>] "
    ++ "[--max <n>] [--from <n>] [--to <n>] [--step <n>] [--config <file.ron>]"

structure Options where
  target : Option Float
  direction : Direction
  margin : Option Float
  pivot : Option Float
  minCap : Option Float
  maxCap : Option Float
  start : Option Float
  stop : Option Float
  step : Option Float
  config : Option String

def Options.none : Options :=
  ⟨.none, .high, .none, .none, .none, .none, .none, .none, .none, .none⟩

inductive Refusal where
  /-- Help was asked for. -/
  | help
  | noValue (flag : String)
  | unknownFlag (flag : String)
  | unknownOperator (symbol : String)
  | notANumber (flag : String)
  | noTarget
  | badConfig (error : ConfigError)
  deriving DecidableEq, Repr

def Refusal.printout : Refusal → Printout
  | help => .success (lines [usage])
  | noValue flag => .failure ["Error: " ++ flag ++ " needs a value"]
  | unknownFlag flag => .failure ["Unknown argument: " ++ flag]
  | unknownOperator symbol => .failure ["Error: unknown operator '" ++ symbol ++ "'"]
  | notANumber flag => .failure ["Error: " ++ flag ++ " must be a number"]
  | noTarget => .failure ["Error: --target is required", usage]
  | badConfig error => .failure ["Error: failed to load config: " ++ error.message]

def Options.set (options : Options) (flag value : String) : Except Refusal Options :=
  let number (put : Float → Options) : Except Refusal Options :=
    match readFloat? value.toList with
    | some x => .ok (put x)
    | .none => .error (.notANumber flag)
  match flag with
  | "--target" => number fun x => { options with target := some x }
  | "--op" =>
    match Direction.ofSymbol? value with
    | some direction => .ok { options with direction }
    | .none => .error (.unknownOperator value)
  | "--margin" => number fun x => { options with margin := some x }
  | "--pivot" => number fun x => { options with pivot := some x }
  | "--min" => number fun x => { options with minCap := some x }
  | "--max" => number fun x => { options with maxCap := some x }
  | "--from" => number fun x => { options with start := some x }
  | "--to" => number fun x => { options with stop := some x }
  | "--step" => number fun x => { options with step := some x }
  | "--config" => .ok { options with config := some value }
  | _ => .error (.unknownFlag flag)

/-- Reads flags with their values. Help is given as soon as its flag is met. -/
def Options.read (options : Options) : List String → Except Refusal Options
  | [] => .ok options
  | flag :: rest =>
    if flag = "--help" ∨ flag = "-h" then .error .help
    else
      match rest with
      | [] => .error (.noValue flag)
      | value :: rest =>
        match options.set flag value with
        | .ok options => options.read rest
        | .error refusal => .error refusal

/-- The larger number; one that is no number gives way to the bound. -/
def atLeast (bound x : Float) : Float := if bound ≤ x then x else bound

structure Table where
  direction : Direction
  target : Float
  params : Params Float
  start : Float
  stop : Float
  step : Float

/-- The margin of the settings. An expression is not evaluated here. -/
def configuredMargin (policy : MarginPolicy) (target : Float) : Float :=
  match policy with
  | .fixed margin => margin
  | .multiple factor => factor * target
  | .expression _ => MarginPolicy.defaultFactor * target

/-- The table for a target, the gaps of the options filled. -/
def tableFor (options : Options) (target : Float) (config : Config) : Table :=
  let margin := options.margin.getD (configuredMargin config.margin target)
  let reach := margin * 1.25
  let start := options.start.getD (atLeast 0 (floorFloat (target - reach)))
  let stop := options.stop.getD (ceilFloat (target + reach))
  { direction := options.direction, target, start, stop
    params :=
      { margin, minCap := options.minCap.getD config.minCap,
        maxCap := options.maxCap.getD config.maxCap, pivot := options.pivot.getD config.pivot }
    step := options.step.getD (roundFloat (atLeast 1 ((stop - start) / 20))) }

/-- What is noted where the margin of the settings is passed over. -/
def note (options : Options) (config : Config) : List String :=
  match options.margin, config.margin with
  | .none, .expression source =>
    ["Note: configured margin expression '" ++ source ++ "' is not evaluated here; using "
      ++ plainText MarginPolicy.defaultFactor ++ "x target"]
  | _, _ => []

def Table.title (table : Table) : String :=
  "Challenge " ++ table.direction.symbol ++ " " ++ plainText table.target
    ++ "  margin " ++ plainText table.params.margin ++ "  pivot " ++ plainText table.params.pivot
    ++ "%  caps " ++ plainText table.params.minCap ++ ".." ++ plainText table.params.maxCap ++ "%"

/-- The number of signs in the bar of one hundred percent. -/
def barWidth : Float := 50

/-- The longest bar that is drawn; a table breaks off at a longer one. -/
def barLimit : Nat := 16777216

def barLength (percent : Float) : Nat := (roundUnsigned (percent / 100 * barWidth)).toNat

/-- Whether a skill is less than half a step from the target. -/
def Table.isMarked (table : Table) (skill : Float) : Bool :=
  size (skill - table.target) < table.step / 2

def Table.row (table : Table) (skill percent : Float) : String :=
  padLeft 8 (fixedText 1 skill) ++ " | " ++ padLeft 5 (fixedText 1 percent) ++ "% "
    ++ "".pushn '#' (barLength percent)
    ++ if table.isMarked skill then " <- target" else ""

/-- The end of a curve is met within this distance. -/
def slack : Float := Float.ofScientific 2220446049250313 true 31

def Table.points (table : Table) (most : Nat) : Except CurveError (List (Float × Float)) :=
  Challenge.points table.direction table.target table.params table.start table.stop table.step slack
    most

def Table.print (table : Table) (most : Nat) : Printout :=
  let head := lines [table.title, ""]
  match table.points most with
  | .error _ => .broken head
  | .ok [] =>
    (Printout.failure ["Error: empty range (check --from, --to and --step)"]).after head
  | .ok points =>
    let drawn := points.takeWhile fun (_, percent) => barLength percent ≤ barLimit
    let output := head ++ lines (drawn.map fun (skill, percent) => table.row skill percent)
    if drawn.length = points.length then .success output else .broken output

def Options.loadConfig (options : Options) (disk : Disk) : Except Refusal Config :=
  match options.config with
  | .none => .ok .default
  | some path => (Config.ofFile (disk path).text).mapError .badConfig

def prepare (disk : Disk) (arguments : List String) : Except Refusal (Options × Float × Config) :=
  match Options.none.read arguments with
  | .error refusal => .error refusal
  | .ok options =>
    match options.target with
    | .none => .error .noTarget
    | some target => (options.loadConfig disk).map fun config => (options, target, config)

/-- The whole tool; a table has at most so many points. -/
def run (most : Nat) (disk : Disk) (arguments : List String) : Printout :=
  match prepare disk arguments with
  | .error refusal => refusal.printout
  | .ok (options, target, config) =>
    let printout := (tableFor options target config).print most
    { printout with errors := lines (note options config) ++ printout.errors }

end QualityScript.Tool.Curve
