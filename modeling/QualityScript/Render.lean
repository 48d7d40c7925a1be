import QualityScript.Eval.Evaluator

/-!
# Showing a quality

Every text of a definition with its blocks expanded, `$.` standing for the quality itself. Without a
definition the texts are empty and the id serves as the name. The bonus of a worn thing wins over
that of its definition.
-/

namespace QualityScript

open Quality

structure RenderedQuality where
  id : String
  kind : Kind
  name : String
  description : String
  plural : String
  variants : List (String × String)
  bonus : String
  holding : Holding
  categories : List String
  tags : List String
  image : Option String

namespace RenderedQuality

def undefined (id : String) (holding : Holding) : RenderedQuality :=
  { id, kind := holding.kind, name := id, description := "", plural := Reference.pluralOf id,
    variants := [], bonus := "", holding, categories := [], tags := [], image := none }

def renderVariants (self : Evaluator) (frame : Frame) :
    List (String × String) → EvalM (List (String × String))
  | [] => return []
  | (key, text) :: rest => do
    let text ← self.expand false text frame
    let rest ← renderVariants self frame rest
    return (key, text) :: rest

def bonusTemplate (holding : Holding) (d : Definition) : String :=
  match holding with
  | .equipable _ (some bonus) => bonus
  | _ => d.bonus

def defined (self : Evaluator) (id : String) (d : Definition) (holding : Holding) (frame : Frame) :
    EvalM RenderedQuality := do
  let name ← if d.name.isEmpty then pure id else self.expand false d.name frame
  let description ← self.expand false d.description frame
  let plural ← match d.plural with
    | some plural => self.expand false plural frame
    | none => pure (Reference.pluralOf name)
  let variants ← renderVariants self frame d.variants.entries
  let bonus ← self.expand false (bonusTemplate holding d) frame
  return { id, kind := holding.kind, name, description, plural, variants, bonus, holding,
           categories := d.categories, tags := d.tags, image := d.image }

/-- Shows a quality. Without a state of its own the player's state is taken. -/
def render (env : Env) (self : Evaluator) (id : String) (definition : Option Definition)
    (state : Option State) (depth : Nat) : EvalM RenderedQuality :=
  let state := state <|> env.player.get? id
  let kind := (definition.map (·.kind)).getD .counter
  let holding := (state.map (·.holding)).getD (.empty kind)
  match definition with
  | none => return undefined id holding
  | some d => defined self id d holding (.new depth (some ⟨id, state⟩))

end RenderedQuality

end QualityScript
