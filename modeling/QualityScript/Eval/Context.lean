import QualityScript.Diagnostic
import QualityScript.Config
import QualityScript.Content.Library
import QualityScript.Challenge.Curve
import QualityScript.Randomness.Draw

/-!
# The context of an evaluation

An evaluation reads states, content and settings, and changes a memory: aliases, which are written
once, diagnostics, of which there is one per kind and snippet, the number of nested expansions, and
the random source. A frame says where the evaluation is: how deep, which quality `$.` stands for, and
inside a margin the target of the challenge.

An evaluation can end early in two ways. Caps that are no numbers leave a challenge without a chance.
And a recursion or a draw may not end at all; both are bounded by a number that the caller chooses.
The memory is kept in either case.
-/

namespace QualityScript

open Quality Content Randomness

/-- The quality that `$.` stands for. Without a state of its own the player's states are read. -/
structure SelfBinding where
  id : String
  state : Option State
  deriving DecidableEq, Repr

/-- Where an evaluation is. -/
structure Frame where
  depth : Nat
  self : Option SelfBinding
  target : Option Float

namespace Frame

def new (depth : Nat) (self : Option SelfBinding) : Frame := ⟨depth, self, none⟩

/-- The frame with another quality for `$.`. -/
def rebind (frame : Frame) (binding : SelfBinding) : Frame := { frame with self := some binding }

def withTarget (frame : Frame) (target : Float) : Frame := { frame with target := some target }

end Frame

/-- What an evaluation reads. -/
structure Env where
  player : States
  world : States
  registry : Registry
  config : Config
  /-- How many random words one draw may pass over. -/
  attempts : Nat

/-- What an evaluation changes. -/
structure Memory where
  source : Source
  /-- The values of the aliases. -/
  aliases : List (String × Value)
  diagnostics : List Diagnostic
  /-- How many nested expansions were made. -/
  expansions : Nat

namespace Memory

def fresh (source : Source) : Memory := ⟨source, [], [], 0⟩

def hasSeen (memory : Memory) (d : Diagnostic) : Bool :=
  memory.diagnostics.any fun e => e.kind = d.kind ∧ e.snippet = d.snippet

/-- Adds a diagnostic unless there is one of its kind about its snippet. -/
def record (memory : Memory) (d : Diagnostic) : Memory :=
  if memory.hasSeen d then memory else { memory with diagnostics := memory.diagnostics ++ [d] }

def alias? (memory : Memory) (name : String) : Option Value := memory.aliases.lookup name

/-- Binds an alias, and tells whether it was free. A bound one keeps its value. -/
def bind (memory : Memory) (name : String) (value : Value) : Bool × Memory :=
  match memory.alias? name with
  | some _ => (false, memory.record (Problem.aliasRebound name).diagnostic)
  | none => (true, { memory with aliases := memory.aliases ++ [(name, value)] })

end Memory

inductive Abort where
  /-- The caps of a challenge cannot be ordered. -/
  | unorderedCaps
  /-- The bound on the recursion or on a draw was reached. -/
  | unfinished
  deriving DecidableEq, Repr

/-- An evaluation: it changes the memory and yields a value or ends early. -/
abbrev EvalM := ExceptT Abort (StateM Memory)

namespace EvalM

def runOn {α : Type} (m : EvalM α) (memory : Memory) : Except Abort α × Memory := m.run memory

def record (p : Problem) : EvalM Unit := modify fun memory => memory.record p.diagnostic

def alias? (name : String) : EvalM (Option Value) := return (← get).alias? name

def bindAlias (name : String) (value : Value) : EvalM Unit :=
  modify fun memory => (memory.bind name value).2

def draw {α : Type} (d : Draw α) : EvalM α := do
  let memory ← get
  match d memory.source with
  | none => throw .unfinished
  | some (a, source) =>
    set { memory with source }
    return a

/-- The frame one level deeper, unless the limit of depth or the budget of expansions is reached. -/
def descend (config : Config) (frame : Frame) (snippet : String) : EvalM (Option Frame) := do
  let memory ← get
  if config.maxDepth ≤ frame.depth ∨ config.expansionBudget ≤ memory.expansions then
    record (.tooDeep frame.depth snippet)
    return none
  else
    set { memory with expansions := memory.expansions + 1 }
    return some { frame with depth := frame.depth + 1 }

end EvalM

end QualityScript
