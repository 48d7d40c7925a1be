import QualityScript.Engine

/-!
# Linting content

Every template and script of a library is tried once, on its own, with no states at all: the texts of
a quality with `$.` standing for it, requirements as conditions, challenges for their chance, effects
as blocks. All are tried with one random source, in the order of the library.

A script is at fault where its braces do not match, where it is read as plain text though it looks
like script, where its expansion goes too deep, and where a challenge is none; these are errors. What
else an evaluation reports is a warning, since states that are missing here may exist in play.
-/

namespace QualityScript.Lint

open Quality Content Randomness

inductive Owner where
  | quality (id : String)
  | event (id : String)
  | option (event id : String)
  deriving DecidableEq, Repr

def Owner.label : Owner → String
  | quality id => "quality '" ++ id ++ "'"
  | event id => "event '" ++ id ++ "'"
  | option place id => "event '" ++ place ++ "' option '" ++ id ++ "'"

/-- The quality that `$.` stands for. -/
def Owner.self : Owner → Option SelfBinding
  | quality id => some ⟨id, none⟩
  | event _ | option .. => none

inductive Use where
  | text
  | condition
  | challenge
  | effect
  deriving DecidableEq, Repr

structure Script where
  owner : Owner
  field : String
  source : String
  use : Use
  deriving DecidableEq, Repr

def ofDefinition (d : Definition) : List Script :=
  let text (field source : String) : Script := ⟨.quality d.id, field, source, .text⟩
  [text "name" d.name, text "description" d.description, text "bonus" d.bonus]
    ++ d.plural.toList.map (text "plural")
    ++ d.variants.entries.map fun (key, source) => text key source

def ofOption (event : String) (o : EventOption) : List Script :=
  let script (field : String) (use : Use) (source : String) : Script :=
    ⟨.option event o.id, field, source, use⟩
  [script "name" .text o.name, script "description" .text o.description]
    ++ o.requirements.map (script "requirement" .condition)
    ++ o.challenge.toList.map (script "challenge" .challenge)
    ++ (o.successEffects ++ o.failureEffects).map (script "effect" .effect)

def ofEvent (e : Event) : List Script :=
  let script (field : String) (use : Use) (source : String) : Script :=
    ⟨.event e.id, field, source, use⟩
  [script "name" .text e.name, script "description" .text e.description]
    ++ e.requirements.map (script "requirement" .condition)
    ++ e.options.flatMap (ofOption e.id)

def scripts (library : Library) : List Script :=
  library.qualities.flatMap ofDefinition ++ library.events.flatMap ofEvent

/-- The engine that scripts are tried with. It has a seed, so its own source is never drawn from. -/
def engine (library : Library) : Engine :=
  ⟨library.registry, { Config.default with seed := some 0 }, .seeded 0⟩

def noStates : Snapshot := ⟨.empty, none⟩

/-- Evaluates a script for its use. The result tells whether a challenge is one. -/
def Script.evaluate (script : Script) (engine : Engine) (fuel : Nat) (states : Snapshot)
    (source : Source) : Evaluation Bool :=
  let options : CallOptions := ⟨script.owner.self, 0, some source⟩
  match script.use with
  | .text => (engine.evaluateText fuel script.source states options).map fun _ => true
  | .condition => (engine.evaluateCondition fuel script.source states options).map fun _ => true
  | .effect => (engine.evaluateBlock fuel script.source states options).map fun _ => true
  | .challenge => (engine.skillCheckChance fuel script.source states options).map (·.isSome)

inductive Fault where
  /-- A brace without a partner. -/
  | braces (error : BraceError)
  | notAChallenge
  | reported (diagnostic : Diagnostic)
  deriving DecidableEq, Repr

inductive Severity where
  | error
  | warning
  deriving DecidableEq, Repr

/-- How bad a fault is. Braces that an evaluation reports are found by the strict scan already. -/
def Fault.severity? : Fault → Option Severity
  | braces _ | notAChallenge => some .error
  | reported d =>
    match d.kind with
    | .unbalancedBraces => none
    | .parseDegrade | .recursionLimitExceeded => some .error
    | .unresolvedReference | .divisionDegenerate | .aliasRebound | .emptySelection => some .warning

structure Finding where
  script : Script
  fault : Fault
  deriving DecidableEq, Repr

def Finding.message (f : Finding) : String :=
  let place := f.script.owner.label ++ " " ++ f.script.field
  match f.fault with
  | .braces error => place ++ ": " ++ error.message ++ " in \"" ++ f.script.source ++ "\""
  | .notAChallenge =>
    f.script.owner.label ++ " challenge is not a challenge: \"" ++ f.script.source ++ "\""
  | .reported d => place ++ ": " ++ d.display

def braceFaults (source : String) : List Fault :=
  match Template.parse source with
  | .ok _ => []
  | .error error => [.braces error]

/-- The faults of a script that was evaluated: its braces, its use, and what was reported. -/
def faults (source : String) (fits : Bool) (diagnostics : List Diagnostic) : List Fault :=
  braceFaults source ++ (if fits then [] else [.notAChallenge]) ++ diagnostics.map .reported

/-- Tries scripts one after the other with one random source. -/
def tryAll (engine : Engine) (fuel : Nat) :
    Source → List Script → Except Abort (List Finding)
  | _, [] => .ok []
  | source, script :: rest =>
    let tried := script.evaluate engine fuel noStates source
    match tried.result with
    | .error abort => .error abort
    | .ok fits =>
      (tryAll engine fuel tried.memory.source rest).map fun findings =>
        (faults script.source fits tried.diagnostics).map (⟨script, ·⟩) ++ findings

structure Report where
  errors : List String
  warnings : List String
  deriving DecidableEq, Repr

def Report.isClean (report : Report) : Bool := report.errors.isEmpty && report.warnings.isEmpty

def messages (severity : Severity) (findings : List Finding) : List String :=
  (findings.filter fun f => f.fault.severity? == some severity).map Finding.message

def check (fuel : Nat) (library : Library) : Except Abort Report :=
  (tryAll (engine library) fuel (.seeded 0) (scripts library)).map fun findings =>
    ⟨messages .error findings, messages .warning findings⟩

end QualityScript.Lint
