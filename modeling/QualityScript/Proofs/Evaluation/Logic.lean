import QualityScript.Proofs.Evaluation.Memory
import QualityScript.Proofs.Syntax.Parts
import QualityScript.Eval.Evaluator

/-!
# Reasoning about evaluations

An evaluator is asked for tasks. What is wanted of a task is said of a family of evaluations at once,
one for each choice of the bounds on depth, on expansions and on draws: a family of one states an
invariant, a family of two compares two settings, and a family over all bounds says that large enough
ones do not matter. A logic is a reading of such families that passes through the primitive
evaluations. What else is kept on the way, of frames, values and changes, is a parameter.

`L.Answers K self t start` says that the evaluators `self` do the task `t` well from every memory
later than `start`.
-/

namespace QualityScript

open Randomness

/-- What limits an evaluation without being seen by it. -/
structure Bounds where
  maxDepth : Nat
  expansionBudget : Nat
  attempts : Nat

def Config.within (config : Config) (b : Bounds) : Config :=
  { config with maxDepth := b.maxDepth, expansionBudget := b.expansionBudget }

def Env.within (env : Env) (b : Bounds) : Env :=
  { env with config := env.config.within b, attempts := b.attempts }

namespace Env

@[simp] theorem within_player (env : Env) (b : Bounds) : (env.within b).player = env.player := rfl

@[simp] theorem within_registry (env : Env) (b : Bounds) : (env.within b).registry = env.registry :=
  rfl

@[simp] theorem within_config (env : Env) (b : Bounds) :
    (env.within b).config = env.config.within b := rfl

@[simp] theorem within_attempts (env : Env) (b : Bounds) : (env.within b).attempts = b.attempts :=
  rfl

end Env

/-! ## Tasks -/

/-- What an evaluator can be asked for. -/
inductive Task where
  | content (mode : Mode) (input : String)
  | leaf (input : String)
  | expr (e : Expr)
  | expand (quotesKept : Bool) (input : String)

abbrev Task.Result : Task → Type
  | .content .. | .leaf _ => Outcome
  | .expr _ => Value
  | .expand .. => String

def Evaluator.run (self : Evaluator) : (t : Task) → Frame → EvalM t.Result
  | .content mode input => self.content mode input
  | .leaf input => self.leaf input
  | .expr e => self.expr e
  | .expand quotesKept input => self.expand quotesKept input

/-- The challenge that a task is, or asks the chance of. -/
def Task.challenge? : Task → Option Challenge
  | .expr e => e.challenge?
  | _ => none

/-- `t.Asks t'`: whatever the settings are, the task `t` asks for `t'` without going one level
deeper. -/
inductive Task.Asks : Task → Task → Prop where
  | assigned {mode input name expression} :
      Block.classify input = .assign name expression →
      Asks (.content mode input) (.content .standalone expression)
  | condition {mode input branches condition result} :
      Block.classify input = .conditional branches → ⟨some condition, result⟩ ∈ branches →
      Asks (.content mode input) (.leaf condition)
  | result {mode input branches} {b : Branch} :
      Block.classify input = .conditional branches → b ∈ branches →
      Asks (.content mode input) (.leaf b.result)
  | option {mode input options option} :
      Block.classify input = .choice options → option ∈ options →
      Asks (.content mode input) (.leaf option)
  | source {mode input source} :
      Block.classify input = .leaf source → Asks (.content mode input) (.leaf source)
  | parsed {input e} : Expr.parse (Text.trimmed input) = .ok e → Asks (.leaf input) (.expr e)
  | block {quotesKept input content} : .block content ∈ (scan quotesKept input).1 →
      Asks (.expand quotesKept input) (.content .inText content)
  | part {e e'} : e' ∈ e.parts → Asks (.expr e) (.expr e')
  | description {e text} : text ∈ e.descriptions → Asks (.expr e) (.expand false text)

/-- `Inner env t t'`: the task `t` asks for `t'` without going one level deeper. A challenge without a
margin asks for the margin expression of the settings. -/
inductive Inner (env : Env) : Task → Task → Prop where
  | asked {t t'} : t.Asks t' → Inner env t t'
  | margin {e c source e'} : e.challenge? = some c → c.margin = none →
      env.config.margin = .expression source → Expr.parse source = .ok e' →
      Inner env (.expr e) (.expr e')

/-! ## Logics -/

/-- A reading of families of evaluations from a memory, closed under the primitive ones. The bounds
are those of the members; no member expands once `budget` expansions were made. -/
structure Logic (ι : Type) where
  bounds : ι → Bounds
  budget : Nat
  rel {α : Type} : (ι → EvalM α) → Memory → (α → Memory → Prop) → Prop
  pure {α : Type} {a : α} {mem : Memory} {post : α → Memory → Prop} :
    post a mem → rel (fun _ => pure a) mem post
  bind {α β : Type} {m : ι → EvalM α} {f : ι → α → EvalM β} {mem : Memory}
    {post : β → Memory → Prop} :
    rel m mem (fun a mem' => rel (fun i => f i a) mem' post) → rel (fun i => m i >>= f i) mem post
  mono {α : Type} {m : ι → EvalM α} {mem : Memory} {post post' : α → Memory → Prop} :
    rel m mem post → (∀ a mem', post a mem' → post' a mem') → rel m mem post'
  record {p : Problem} {mem : Memory} {post : Unit → Memory → Prop} :
    post () (mem.record p.diagnostic) → rel (fun _ => EvalM.record p) mem post
  alias? {name : String} {mem : Memory} {post : Option Value → Memory → Prop} :
    post (mem.alias? name) mem → rel (fun _ => EvalM.alias? name) mem post
  bindAlias {name : String} {value : Value} {mem : Memory} {post : Unit → Memory → Prop} :
    post () (mem.bind name value).2 → rel (fun _ => EvalM.bindAlias name value) mem post
  draw {α : Type} {d : Nat → Draw α} {mem : Memory} {post : α → Memory → Prop} :
    Draw.Proper d →
    (∀ n a source, d n mem.source = some (a, source) → post a { mem with source }) →
    rel (fun i => EvalM.draw (d (bounds i).attempts)) mem post
  descend {config : Config} {frame : Frame} {snippet : String} {mem : Memory}
    {post : Option Frame → Memory → Prop} :
    post none (mem.record (Problem.tooDeep frame.depth snippet).diagnostic) →
    (mem.expansions < budget → post (some frame.deeper) mem.spend) →
    rel (fun i => EvalM.descend (config.within (bounds i)) frame snippet) mem post

/-- A reading that does not mind evaluations that end because caps cannot be ordered. -/
class Logic.Lenient {ι : Type} (L : Logic ι) : Prop where
  fail {α : Type} {mem : Memory} {post : α → Memory → Prop} :
    L.rel (fun _ => throw .unorderedCaps) mem post

/-- What an aim may write to in a frame: the quality bound there, or one of the player or the world
with no holding given. -/
def Eval.Aim.Fits (frame : Frame) (aim : Eval.Aim) : Prop :=
  aim.scope ≠ .self ∧ aim.holding = none ∨
    ∃ binding, frame.self = some binding ∧
      aim = ⟨.player, binding.id, binding.state.map (·.holding)⟩

/-- Neither changes nor a later effect. -/
def Value.IsPlain : Value → Prop
  | .effect _ | .pending _ => False
  | _ => True

/-- What an evaluation keeps: a property of frames, of values and of the changes so far that holds
of all that evaluating makes out of what has it. -/
structure Kept (env : Env) where
  frame : Frame → Prop
  value : Value → Prop
  progress : Eval.Progress → Prop
  withTarget {f : Frame} (target : Float) : frame f → frame (f.withTarget target)
  deeper {f : Frame} : frame f → frame f.deeper
  bound {f : Frame} (id : String) : frame f → frame (f.rebind ⟨id, none⟩)
  owner {f : Frame} {r : Reference} {text : String} {owner : SelfBinding} :
    frame f → (r.resolve env f).resolution = .template text owner → frame (f.rebind owner)
  plain {v : Value} : v.IsPlain → value v
  start : progress .start
  add {p : Eval.Progress} {f : Frame} {aim : Eval.Aim} {e : EffectExpr} {amount : Value}
    {description : Option String} : progress p → frame f →
    aim.Fits f → value amount → progress (p.add env e amount description aim)
  effect {p : Eval.Progress} : progress p → value (.effect p.changes)
  pending {p : Eval.Progress} (kind : PendingKind) (duration : UInt64) :
    progress p → value (.pending ⟨kind, p.changes, duration⟩)

namespace Kept

def nothing (env : Env) : Kept env where
  frame _ := True
  value _ := True
  progress _ := True
  withTarget _ _ := trivial
  deeper _ := trivial
  bound _ _ := trivial
  owner _ _ := trivial
  plain _ := trivial
  start := trivial
  add _ _ _ _ := trivial
  effect _ := trivial
  pending _ _ _ := trivial

variable {env : Env} (K : Kept env)

/-- What is kept of a memory: the property of its aliases. -/
def memory (mem : Memory) : Prop := ∀ entry ∈ mem.aliases, K.value entry.2

def result : (t : Task) → t.Result → Prop
  | .content .. | .leaf _ => fun outcome => K.value outcome.value
  | .expr _ => K.value
  | .expand .. => fun _ => True

/-- An evaluation that started at `start` is at `mem` in `frame`. -/
structure At (start mem : Memory) (frame : Frame) : Prop where
  later : start.Later mem
  memory : K.memory mem
  frame : K.frame frame

end Kept

variable {ι α β : Type} {env : Env} {K : Kept env} {L : Logic ι}

theorem Kept.at_nothing (mem : Memory) (frame : Frame) : (Kept.nothing env).At mem mem frame :=
  ⟨.refl mem, fun _ _ => trivial, trivial⟩

theorem Kept.memory_of_aliases {mem mem' : Memory} (h : K.memory mem)
    (heq : mem'.aliases = mem.aliases) : K.memory mem' := fun entry hmem => h entry (heq ▸ hmem)

theorem Kept.memory_bind {mem : Memory} {value : Value} (h : K.memory mem) (hv : K.value value)
    (name : String) : K.memory (mem.bind name value).2 := by
  unfold Memory.bind
  split
  · exact K.memory_of_aliases h (by simp)
  · intro entry hmem
    rcases List.mem_append.mp hmem with hmem | hmem
    · exact h entry hmem
    · cases List.mem_singleton.mp hmem
      exact hv

theorem Kept.value_of_alias? {mem : Memory} (h : K.memory mem) {name : String} {value : Value}
    (hv : mem.alias? name = some value) : K.value value := by
  obtain ⟨l, r, heq, -⟩ := List.lookup_eq_some_iff.mp hv
  exact h (name, value) (by rw [heq]; simp)

namespace Logic

/-- How much of the budget is left. -/
def left (L : Logic ι) (mem : Memory) : Nat := L.budget - mem.expansions

/-- The evaluations read well, and keep what is to be kept. -/
def Gives (L : Logic ι) (K : Kept env) (m : ι → EvalM α) (mem : Memory) (post : α → Prop) : Prop :=
  L.rel m mem fun a mem' => mem.Later mem' ∧ K.memory mem' ∧ post a

/-- The evaluators do a task well from every memory later than `start`. -/
def Answers (L : Logic ι) (K : Kept env) (self : ι → Evaluator) (t : Task) (start : Memory) : Prop :=
  ∀ ⦃mem frame⦄, K.At start mem frame →
    L.Gives K (fun i => (self i).run t frame) mem (K.result t)

/-- The evaluators give the chance of a challenge well in this frame and from this memory. -/
def GivesChance (L : Logic ι) (K : Kept env) (self : ι → Evaluator) (c : Challenge) (mem : Memory)
    (frame : Frame) : Prop :=
  L.Gives K (fun i => Eval.challengePercent (env.within (L.bounds i)) (self i) c frame) mem
    fun _ => True

/-- The evaluators do well whatever a task asks for on its own level. -/
def AnswersInner (L : Logic ι) (K : Kept env) (self : ι → Evaluator) (t : Task) (start : Memory) :
    Prop :=
  ∀ t', Inner env t t' → L.Answers K self t' start

/-- The evaluators do every task well once less of the budget is left than at `start`. -/
def AnswersBelow (L : Logic ι) (K : Kept env) (self : ι → Evaluator) (start : Memory) : Prop :=
  ∀ t mem, L.left mem < L.left start → L.Answers K self t mem

end Logic

/-! ## Evaluations in sequence -/

namespace Kept.At

variable {start mem mem' : Memory} {frame : Frame} {post : α → Prop}

theorem next (h : K.At start mem frame) (hlater : mem.Later mem') (hmem : K.memory mem') :
    K.At start mem' frame := ⟨h.later.trans hlater, hmem, h.frame⟩

theorem inFrame (h : K.At start mem frame) {frame' : Frame} (hf : K.frame frame') :
    K.At start mem frame' := ⟨h.later, h.memory, hf⟩

theorem pure (h : K.At start mem frame) {a : α} (ha : post a) :
    L.Gives K (fun _ => Pure.pure a) mem post :=
  L.pure ⟨.refl _, h.memory, ha⟩

theorem bind (h : K.At start mem frame) {m : ι → EvalM α} {f : ι → α → EvalM β} {mid : α → Prop}
    {post : β → Prop} (hm : L.Gives K m mem mid)
    (hf : ∀ a mem', K.At start mem' frame → mid a → L.Gives K (fun i => f i a) mem' post) :
    L.Gives K (fun i => m i >>= f i) mem post := by
  refine L.bind (L.mono hm fun a mem' ⟨hlater, hmem, ha⟩ => ?_)
  exact L.mono (hf a mem' (h.next hlater hmem) ha) fun b mem'' ⟨hlater', hmem', hb⟩ =>
    ⟨hlater.trans hlater', hmem', hb⟩

theorem map (h : K.At start mem frame) {m : ι → EvalM α} {g : α → β} {mid : α → Prop}
    {post : β → Prop} (hm : L.Gives K m mem mid) (hg : ∀ a, mid a → post (g a)) :
    L.Gives K (fun i => m i >>= fun a => Pure.pure (g a)) mem post :=
  h.bind hm fun a _ h' ha => h'.pure (hg a ha)

theorem record (h : K.At start mem frame) (p : Problem) :
    L.Gives K (fun _ => EvalM.record p) mem fun _ => True :=
  L.record ⟨mem.later_record _, K.memory_of_aliases h.memory (by simp), trivial⟩

theorem alias? (h : K.At start mem frame) (name : String) :
    L.Gives K (fun _ => EvalM.alias? name) mem fun value => ∀ v, value = some v → K.value v :=
  L.alias? ⟨.refl _, h.memory, fun _ hv => K.value_of_alias? h.memory hv⟩

theorem bindAlias (h : K.At start mem frame) (name : String) {value : Value} (hv : K.value value) :
    L.Gives K (fun _ => EvalM.bindAlias name value) mem fun _ => True :=
  L.bindAlias ⟨mem.later_bind name value, K.memory_bind h.memory hv name, trivial⟩

theorem drawn (h : K.At start mem frame) {d : Nat → Draw α} (hd : Draw.Proper d)
    (hpost : ∀ n s a s', d n s = some (a, s') → post a) :
    L.Gives K (fun i => EvalM.draw (d (L.bounds i).attempts)) mem post :=
  L.draw hd fun n a source hs =>
    ⟨Memory.later_drawn (hd.before hs), K.memory_of_aliases h.memory rfl, hpost n _ a source hs⟩

theorem draw (h : K.At start mem frame) {d : Nat → Draw α} (hd : Draw.Proper d) :
    L.Gives K (fun i => EvalM.draw (d (L.bounds i).attempts)) mem fun _ => True :=
  h.drawn hd fun _ _ _ _ _ => trivial

/-- After a descent either a diagnostic is there or less of the budget is left. -/
theorem descend (h : K.At start mem frame) {config : Config} {snippet : String}
    {f : ι → Option Frame → EvalM α}
    (hnone : ∀ mem', K.At start mem' frame → L.Gives K (fun i => f i none) mem' post)
    (hsome : ∀ mem', L.left mem' < L.left start → K.At mem' mem' frame.deeper →
      L.Gives K (fun i => f i (some frame.deeper)) mem' post) :
    L.Gives K (fun i => EvalM.descend (config.within (L.bounds i)) frame snippet >>= f i) mem
      post := by
  refine L.bind (L.descend ?_ fun hbudget => ?_)
  · have hlater := mem.later_record (Problem.tooDeep frame.depth snippet).diagnostic
    have hmem := K.memory_of_aliases h.memory
      (mem.aliases_record (Problem.tooDeep frame.depth snippet).diagnostic)
    exact L.mono (hnone _ (h.next hlater hmem)) fun a mem' ⟨hlater', hmem', ha⟩ =>
      ⟨hlater.trans hlater', hmem', ha⟩
  · have hlater := mem.later_spend
    have hmem : K.memory mem.spend := K.memory_of_aliases h.memory rfl
    have hleft : L.left mem.spend < L.left start := by
      have := h.later.expansions
      simp only [Logic.left, Memory.spend]
      omega
    exact L.mono (hsome _ hleft ⟨.refl _, hmem, K.deeper h.frame⟩)
      fun a mem' ⟨hlater', hmem', ha⟩ => ⟨hlater.trans hlater', hmem', ha⟩

end Kept.At

end QualityScript
