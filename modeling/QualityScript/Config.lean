import QualityScript.Ron.Reader

/-!
# Settings of the engine

Limits on nested expansion, the parameters of challenges that their author left out, and the seed
of the random source that is used where none is given.
-/

namespace QualityScript

open Ron Number

/-- How the margin of a challenge is chosen where the author gives none. -/
inductive MarginPolicy where
  /-- The same margin for every challenge. -/
  | fixed (margin : Float)
  /-- A multiple of the target. -/
  | multiple (factor : Float)
  /-- An expression with `target` bound, such as `target / 2 + 5`. -/
  | expression (source : String)

def MarginPolicy.defaultFactor : Float := 2

structure Config where
  /-- How deep expansions may nest. -/
  maxDepth : Nat
  /-- How many nested expansions one call may make. -/
  expansionBudget : Nat
  pivot : Float
  minCap : Float
  maxCap : Float
  margin : MarginPolicy
  seed : Option UInt64

namespace Config

def default : Config :=
  { maxDepth := 10, expansionBudget := 4096, pivot := 60, minCap := 0, maxCap := 100,
    margin := .multiple MarginPolicy.defaultFactor, seed := none }

instance : Inhabited Config := ⟨default⟩

/-- The largest limit on depth or expansions that a file may set. -/
def maxLimit : Nat := 4294967295

def marginReader : Reader MarginPolicy :=
  Reader.variant fun name =>
    match name with
    | "Fixed" => some (.held (.enclosed (.map .fixed .float)))
    | "TargetMultiple" => some (.held (.enclosed (.map .multiple .float)))
    | "Expression" => some (.held (.enclosed (.map .expression .text)))
    | _ => none

/-- Settings in a file; what is left out keeps its default. -/
def reader : Reader Config :=
  Reader.record "EngineConfig"
    [.optional "max_depth" (Reader.natural maxLimit) fun maxDepth c => { c with maxDepth },
      .optional "expansion_budget" (Reader.natural maxLimit) fun expansionBudget c =>
        { c with expansionBudget },
      .optional "default_pivot" Reader.float fun pivot c => { c with pivot },
      .optional "default_min_cap" Reader.float fun minCap c => { c with minCap },
      .optional "default_max_cap" Reader.float fun maxCap c => { c with maxCap },
      .optional "default_margin" marginReader fun margin c => { c with margin },
      .optional "seed" (Reader.option (Reader.natural maxUnsigned)) fun seed c =>
        { c with seed := seed.map UInt64.ofNat }]
    default

def ofText? (text : String) : Option Config := readFile? reader text

end Config

inductive ConfigError where
  | unreadable
  | malformed
  deriving DecidableEq, Repr

def ConfigError.message : ConfigError → String
  | unreadable => unreadableMessage
  | malformed => malformedMessage

def Config.ofFile : FileText → Except ConfigError Config
  | none => .error .unreadable
  | some contents =>
    match ofText? contents with
    | some config => .ok config
    | none => .error .malformed

end QualityScript
