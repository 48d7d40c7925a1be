import Mathlib
import QualityScript.Proofs.Evaluation.Termination

/-!
# Margins of the settings

The margin of a challenge that has none can be an expression of the settings. It is evaluated on the
level of the challenge: no descent stands between the two. So it is well as long as it meets no
challenge without a margin before a descent, and then every call ends. Where it cannot be evaluated
without meeting one, the margin is asked for again and again, and no such challenge ever has a chance.
Neither the ceiling on the depth nor the budget is on that cycle.
-/

namespace QualityScript

open Quality Randomness

/-- The arguments of a call that are evaluated whatever the content and the states are. A filter is
not: the category may be empty. -/
def Call.needed : Call → List Expr
  | .random percent _ => [percent]
  | .pick _ count _ => count.toList
  | .schedule _ effect amount _ => effect.flatMap EffectExpr.parts ++ [amount]
  | .chance c => c.parts
  | .roll .. | .list .. | .all _ => []

/-- The parts of an expression that are evaluated whatever the content and the states are, unless one
before them ends the evaluation. Of the items of a condition only the first is. -/
def Expr.needed : Expr → List Expr
  | .literal _ | .ref _ | .aliasName _ | .word _ => []
  | .neg inner | .not inner => [inner]
  | .arith _ lhs rhs | .compare _ lhs rhs | .range lhs rhs => [lhs, rhs]
  | .and items | .or items => items.head?.toList
  | .challenge c => c.parts
  | .effect list => list.flatMap EffectExpr.parts
  | .call c => c.needed

/-- The expression has no value before a challenge without a margin has a chance. -/
inductive Expr.NeedsMargin : Expr → Prop where
  | here {e c} : e.challenge? = some c → c.margin = none → NeedsMargin e
  | needed {e e'} : e' ∈ e.needed → NeedsMargin e' → NeedsMargin e

/-- The margin is an expression that needs a margin itself. -/
def MarginPolicy.IsCircular : MarginPolicy → Prop
  | .fixed _ | .multiple _ => False
  | .expression source => ∃ e, Expr.parse source = .ok e ∧ e.NeedsMargin

/-! ## Evaluations without a value -/

/-- Never yields a value. -/
def EvalM.Fruitless {α : Type} (m : EvalM α) : Prop := ∀ mem a mem', m.runOn mem ≠ (.ok a, mem')

/-- Never yields a value for the expression. -/
def Evaluator.FruitlessAt (self : Evaluator) (e : Expr) : Prop :=
  ∀ frame, (self.expr e frame).Fruitless

namespace EvalM.Fruitless

variable {α β : Type} {m : EvalM α} {f : α → EvalM β}

theorem throw (e : Abort) : (throw e : EvalM α).Fruitless := by
  intro mem a mem' h
  cases h

theorem bind (h : m.Fruitless) : (m >>= f).Fruitless := by
  intro mem b mem' hrun
  obtain ⟨a, mem₁, hm, -⟩ := EvalM.exists_of_runOn_bind hrun
  exact h mem a mem₁ hm

theorem after (h : ∀ a, (f a).Fruitless) : (m >>= f).Fruitless := by
  intro mem b mem' hrun
  obtain ⟨a, mem₁, -, hf⟩ := EvalM.exists_of_runOn_bind hrun
  exact h a mem₁ b mem' hf

end EvalM.Fruitless

namespace Eval

variable {env : Env} {self : Evaluator} {frame : Frame} {e : Expr}

theorem fruitless_number (h : self.FruitlessAt e) : (self.number e frame).Fruitless := (h frame).bind

theorem fruitless_parameter {given : Option Expr} {default : Float} (he : e ∈ given)
    (h : self.FruitlessAt e) : (parameter self given default frame).Fruitless := by
  cases he
  exact fruitless_number h

theorem fruitless_defaultMargin {source : String} {target : Float}
    (hpolicy : env.config.margin = .expression source) (hparse : Expr.parse source = .ok e)
    (h : self.FruitlessAt e) : (defaultMargin env self target frame).Fruitless := by
  simp only [defaultMargin, hpolicy, hparse]
  exact fruitless_number h

theorem fruitless_challengePercent_of_part {c : Challenge} (he : e ∈ c.parts)
    (h : self.FruitlessAt e) : (challengePercent env self c frame).Fruitless := by
  simp only [Challenge.parts, List.mem_cons, List.mem_append, Option.mem_toList] at he
  unfold challengePercent
  rcases he with rfl | rfl | he
  · exact (fruitless_number h).bind
  · exact .after fun _ => (fruitless_number h).bind
  · refine .after fun _ => .after fun _ => ?_
    rcases he with ((he | he) | he) | he
    · simp only [Option.mem_def.mp he]
      exact (fruitless_number h).bind
    · cases c.margin <;> exact .after fun _ => (fruitless_parameter he h).bind
    · cases c.margin <;> exact .after fun _ => .after fun _ => (fruitless_parameter he h).bind
    · cases c.margin <;>
        exact .after fun _ => .after fun _ => .after fun _ => (fruitless_parameter he h).bind

theorem fruitless_challengePercent_of_margin {c : Challenge} {source : String}
    (hc : c.margin = none) (hpolicy : env.config.margin = .expression source)
    (hparse : Expr.parse source = .ok e) (h : self.FruitlessAt e) :
    (challengePercent env self c frame).Fruitless := by
  unfold challengePercent
  simp only [hc]
  exact .after fun _ => .after fun _ => (fruitless_defaultMargin hpolicy hparse h).bind

theorem fruitless_effectsFrom {list : List EffectExpr} {p : Progress}
    (he : e ∈ list.flatMap EffectExpr.parts) (h : self.FruitlessAt e) :
    (effectsFrom env self frame p list).Fruitless := by
  induction list generalizing p with
  | nil => cases he
  | cons change rest ih =>
    simp only [List.flatMap_cons, List.mem_append, EffectExpr.parts, Option.mem_toList] at he
    rcases he with he | he
    · have hamount : (amount self change.amount frame).Fruitless := by
        simp only [Option.mem_def.mp he]
        exact h frame
      exact hamount.bind
    · exact .after fun _ => .after fun _ => .after fun _ => ih he

theorem fruitless_call {c : Call} (he : e ∈ c.needed) (h : self.FruitlessAt e) :
    (call env self c frame).Fruitless := by
  cases c with
  | random percent invert =>
    cases List.mem_singleton.mp he
    exact (fruitless_number h).bind
  | pick category count filter =>
    have hcount : (pickCount self count frame).Fruitless := by
      cases Option.mem_toList.mp he
      exact (fruitless_number h).bind
    exact .after fun _ => hcount.bind
  | roll category filter | list category separator filter | all category => cases he
  | schedule kind effect amount unit =>
    rcases List.mem_append.mp he with he | he
    · have heffects : (effects env self effect frame).Fruitless := (fruitless_effectsFrom he h).bind
      exact heffects.bind
    · cases List.mem_singleton.mp he
      exact .after fun _ => (fruitless_number h).bind
  | chance c => exact (fruitless_challengePercent_of_part he h).bind

/-- An expression has no value if something that it needs has none. -/
theorem fruitless_expr {whole : Expr} (he : e ∈ whole.needed) (h : self.FruitlessAt e) :
    (expr env self whole frame).Fruitless := by
  cases whole with
  | literal value | ref r | aliasName name | word text => cases he
  | call c => exact fruitless_call he h
  | neg inner =>
    cases List.mem_singleton.mp he
    exact (fruitless_number h).bind
  | not inner =>
    cases List.mem_singleton.mp he
    exact (h frame).bind
  | arith op lhs rhs | compare op lhs rhs =>
    simp only [Expr.needed, List.mem_cons, List.not_mem_nil, or_false] at he
    rcases he with rfl | rfl
    · exact (h frame).bind
    · exact .after fun _ => (h frame).bind
  | and items | or items =>
    cases items with
    | nil => cases he
    | cons first rest =>
      cases List.mem_singleton.mp he
      exact (h frame).bind.bind
  | challenge c => exact (fruitless_challengePercent_of_part he h).bind
  | effect list =>
    have heffects : (effects env self list frame).Fruitless := (fruitless_effectsFrom he h).bind
    exact heffects.bind
  | range lhs rhs =>
    simp only [Expr.needed, List.mem_cons, List.not_mem_nil, or_false] at he
    rcases he with rfl | rfl
    · exact (fruitless_number h).bind
    · exact .after fun _ => (fruitless_number h).bind

theorem fruitless_expr_of_margin {c : Challenge} {whole : Expr} {source : String}
    (hchallenge : whole.challenge? = some c) (hc : c.margin = none)
    (hpolicy : env.config.margin = .expression source) (hparse : Expr.parse source = .ok e)
    (h : self.FruitlessAt e) : (expr env self whole frame).Fruitless := by
  have hpercent : (challengePercent env self c frame).Fruitless :=
    fruitless_challengePercent_of_margin hc hpolicy hparse h
  unfold Expr.challenge? at hchallenge
  split at hchallenge
  · cases hchallenge
    exact hpercent.bind
  · cases hchallenge
    exact hpercent.bind
  · cases hchallenge

/-- By induction on how deep the evaluator nests: a margin asked for one step deeper has no value
there. -/
theorem fruitless_of_needsMargin {source : String} (hpolicy : env.config.margin = .expression source)
    (hparse : Expr.parse source = .ok e) (hneeds : e.NeedsMargin) (fuel : Nat) {whole : Expr}
    (hwhole : whole.NeedsMargin) : (evaluator env fuel).FruitlessAt whole := by
  induction fuel generalizing whole with
  | zero => exact fun frame => .throw .unfinished
  | succ fuel ih =>
    intro frame
    cases hwhole with
    | here hchallenge hc => exact fruitless_expr_of_margin hchallenge hc hpolicy hparse (ih hneeds)
    | needed he hneeded => exact fruitless_expr he (ih hneeded)

/-- Under a circular margin no challenge without a margin ever has a chance. -/
theorem fruitless_challengePercent (hmargin : env.config.margin.IsCircular) {c : Challenge}
    (hc : c.margin = none) (fuel : Nat) (frame : Frame) :
    (challengePercent env (evaluator env fuel) c frame).Fruitless := by
  cases hpolicy : env.config.margin with
  | fixed margin | multiple factor =>
    rw [hpolicy] at hmargin
    exact hmargin.elim
  | expression source =>
    rw [hpolicy] at hmargin
    obtain ⟨e, hparse, hneeds⟩ := hmargin
    exact fruitless_challengePercent_of_margin hc hpolicy hparse
      (fruitless_of_needsMargin hpolicy hparse hneeds fuel hneeds)

/-! A challenge between two numbers shows the cycle at its shortest: every evaluator runs out of steps
in it. -/

/-- Has a value in one step, and leaves the memory as it is. -/
def IsSteady (env : Env) (e : Expr) : Prop :=
  ∀ self frame mem, ∃ v, (expr env self e frame).runOn mem = (.ok v, mem)

/-- A challenge without a margin between two steady expressions. -/
structure WaitsForMargin (env : Env) (c : Challenge) : Prop where
  margin : c.margin = none
  subject : IsSteady env c.subject
  target : IsSteady env c.target

theorem IsSteady.number (h : IsSteady env e) (fuel : Nat) (frame : Frame) (mem : Memory) :
    ∃ x, ((evaluator env (fuel + 1)).number e frame).runOn mem = (.ok x, mem) := by
  obtain ⟨v, hv⟩ := h (evaluator env fuel) frame mem
  exact ⟨v.numberOrZero, EvalM.runOn_bind_ok hv _⟩

theorem unfinished_of_waitsForMargin {source : String} {m : Challenge}
    (hpolicy : env.config.margin = .expression source)
    (hparse : Expr.parse source = .ok (.challenge m)) (hm : WaitsForMargin env m) (fuel : Nat)
    {c : Challenge} (hc : WaitsForMargin env c) (frame : Frame) (mem : Memory) :
    (challengePercent env (evaluator env fuel) c frame).runOn mem = (.error .unfinished, mem) := by
  induction fuel generalizing c frame mem with
  | zero => rfl
  | succ fuel ih =>
    obtain ⟨skill, hskill⟩ := hc.subject.number fuel frame mem
    obtain ⟨target, htarget⟩ := hc.target.number fuel frame mem
    have hmargin : (defaultMargin env (evaluator env (fuel + 1)) target
        (frame.withTarget target)).runOn mem = (.error .unfinished, mem) := by
      simp only [defaultMargin, hpolicy, hparse]
      have hchance := ih hm (frame.withTarget target) mem
      have hvalue : ((evaluator env (fuel + 1)).expr (.challenge m)
          (frame.withTarget target)).runOn mem = (.error .unfinished, mem) :=
        EvalM.runOn_bind_error hchance _
      exact EvalM.runOn_bind_error hvalue _
    unfold challengePercent
    simp only [hc.margin]
    rw [EvalM.runOn_bind_ok hskill, EvalM.runOn_bind_ok htarget]
    exact EvalM.runOn_bind_error hmargin _

end Eval

/-! ## Calls -/

open Evaluation

/-- Whatever it is asked for, the engine comes to an end on these states. -/
structure Engine.AlwaysTerminates (engine : Engine) (states : Snapshot) (options : CallOptions) :
    Prop where
  percent : ∀ c, Terminates fun fuel => engine.run fuel states options fun env self frame =>
    Eval.challengePercent env self c frame
  text : ∀ template, Terminates fun fuel => engine.evaluateText fuel template states options
  condition : ∀ condition, Terminates fun fuel =>
    engine.evaluateCondition fuel condition states options
  block : ∀ template, Terminates fun fuel => engine.evaluateBlock fuel template states options
  chance : ∀ input, Terminates fun fuel => engine.skillCheckChance fuel input states options
  definition : ∀ definition state, Terminates fun fuel =>
    engine.renderDefinition fuel definition state states options
  quality : ∀ id, Terminates fun fuel => engine.renderQuality fuel id states options
  availability : ∀ id, Terminates fun fuel => engine.isEventAvailable fuel id states options
  choice : ∀ event option, Terminates fun fuel =>
    engine.resolveOption fuel event option states options

namespace Engine

theorem alwaysTerminates {engine : Engine} {options : CallOptions}
    (hmargin : engine.config.margin.IsGuarded)
    (hsource : (options.source.getD engine.fallbackSource).Accepting) (states : Snapshot) :
    engine.AlwaysTerminates states options where
  percent c := terminates_run_of_isGuarded (.percent c) hmargin hsource states
  text template := terminates_run_of_isGuarded (.text template) hmargin hsource states
  condition condition := terminates_run_of_isGuarded (.condition condition) hmargin hsource states
  block template := terminates_run_of_isGuarded (.block template) hmargin hsource states
  chance input := terminates_run_of_isGuarded (.chance input) hmargin hsource states
  definition definition state := terminates_run_of_isGuarded
    (.quality definition.id (some definition) state) hmargin hsource states
  quality id := terminates_run_of_isGuarded
    (.quality id (engine.registry.quality? id) none) hmargin hsource states
  availability id := terminates_run_of_isGuarded
    (.availability (engine.registry.event? id)) hmargin hsource states
  choice event option := terminates_run_of_isGuarded
    (.choice ((engine.registry.event? event).bind fun e => e.option? option)) hmargin hsource states

theorem run_ne_ok {α : Type} {m : Env → Evaluator → Frame → EvalM α} {engine : Engine} {fuel : Nat}
    {states : Snapshot} {options : CallOptions}
    (h : ∀ frame, (m (engine.env fuel states) (evaluator (engine.env fuel states) fuel)
      frame).Fruitless) (a : α) : (engine.run fuel states options m).result ≠ .ok a := by
  intro hok
  rw [run_eq] at hok
  exact h _ _ a _ (Prod.ext hok rfl)

/-- Where the margin of the settings meets no challenge without a margin, unless after a descent,
every call ends, whatever the content, the states and the texts are. Where it needs the chance of such
a challenge, no such challenge ever has a chance. -/
theorem terminates_under_margin (engine : Engine) (options : CallOptions) (states : Snapshot)
    (hsource : (options.source.getD engine.fallbackSource).Accepting) :
    (engine.config.margin.IsGuarded → engine.AlwaysTerminates states options) ∧
    (engine.config.margin.IsCircular →
      (∀ c : Challenge, c.margin = none → ∀ fuel percent,
        (engine.run fuel states options fun env self frame =>
          Eval.challengePercent env self c frame).result ≠ .ok percent) ∧
      ∀ input c, challengeOf? input = some c → c.margin = none → ∀ fuel chance,
        (engine.skillCheckChance fuel input states options).result ≠ .ok chance) := by
  refine ⟨fun hmargin => alwaysTerminates hmargin hsource states, fun hmargin => ⟨?_, ?_⟩⟩
  · intro c hc fuel percent
    exact run_ne_ok (fun frame => Eval.fruitless_challengePercent hmargin hc fuel frame) percent
  · intro input c hinput hc fuel chance
    refine run_ne_ok (fun frame => ?_) chance
    simp only [hinput]
    exact (Eval.fruitless_challengePercent hmargin hc fuel frame).bind

/-- The challenge `$skill >> target`. -/
def skillAgainst (target : Int64) : Challenge :=
  .plain (.ref ⟨.player, "skill", .value⟩) .high (.literal (.int target)) false

theorem parse_skillAgainst_two :
    Expr.parse "$skill >> 2" = .ok (.challenge (skillAgainst 2)) := by
  cbv

theorem challengeOf?_skillAgainst_four : challengeOf? "$skill >> 4" = some (skillAgainst 4) := by
  have hparse : Expr.parse "$skill >> 4" = .ok (.challenge (skillAgainst 4)) := by cbv
  have htext : Text.trimmed (blockContent "$skill >> 4") = "$skill >> 4" := by decide +kernel
  simp only [challengeOf?, htext, hparse]

/-- A challenge as the margin of all challenges: no number of steps is enough. -/
theorem unfinished_under_challenge_margin :
    let engine : Engine :=
      ⟨Content.Library.empty.registry, { Config.default with margin := .expression "$skill >> 2" }, .zeros⟩
    let states : Snapshot := ⟨States.empty.insert (.new "skill" (.counter 100)), none⟩
    (∃ c, challengeOf? "$skill >> 4" = some c ∧ c.margin = none) ∧
      ¬ Terminates fun fuel => engine.skillCheckChance fuel "$skill >> 4" states .none := by
  intro engine states
  have hinput := challengeOf?_skillAgainst_four
  have hwaits (fuel : Nat) (target : Int64) :
      Eval.WaitsForMargin (engine.env fuel states) (skillAgainst target) :=
    ⟨rfl, fun _ _ _ => ⟨.int 100, rfl⟩, fun _ _ _ => ⟨.int target, rfl⟩⟩
  refine ⟨⟨_, hinput, rfl⟩, ?_⟩
  rintro ⟨ended, hfinished, n, hended⟩
  have hpolicy : (engine.env n states).config.margin = .expression "$skill >> 2" := rfl
  have hpercent := Eval.unfinished_of_waitsForMargin hpolicy parse_skillAgainst_two (hwaits n 2) n
    (hwaits n 4) (.new 0 none) (.fresh engine.fallbackSource)
  have hrun : (engine.skillCheckChance n "$skill >> 4" states .none).result =
      .error .unfinished := by
    rw [skillCheckChance, run_eq]
    simp only [hinput]
    exact congrArg Prod.fst (EvalM.runOn_bind_error hpercent _)
  apply hfinished
  rw [← hended n (Nat.le_refl n)]
  exact hrun

/-- In quotes a challenge is a template, which is expanded after a descent; bare it is not. -/
theorem terminates_under_margin_of_template :
    let engine (margin : String) : Engine :=
      ⟨Content.Library.empty.registry, { Config.default with margin := .expression margin }, .zeros⟩
    let states : Snapshot := ⟨States.empty.insert (.new "skill" (.counter 100)), none⟩
    let options : CallOptions := { CallOptions.none with source := some .zeros }
    Source.zeros.Accepting ∧
      (engine "'\x7b$skill >> 2\x7d'").AlwaysTerminates states options ∧
      ∀ fuel chance, ((engine "$skill >> 2").skillCheckChance fuel "$skill >> 4" states
        options).result ≠ .ok chance := by
  intro engine states options
  have htemplate : Expr.parse "'\x7b$skill >> 2\x7d'" =
      .ok (.literal (.text "\x7b$skill >> 2\x7d")) := by cbv
  have hguarded : (engine "'\x7b$skill >> 2\x7d'").config.margin.IsGuarded := by
    intro e he hasks
    rw [htemplate] at he
    cases he
    cases hasks with
    | here hchallenge _ => cases hchallenge
    | asked hasked _ =>
      cases hasked with
      | part hmem => cases hmem
      | description hmem => cases hmem
  have hcircular : (engine "$skill >> 2").config.margin.IsCircular :=
    ⟨_, parse_skillAgainst_two, .here rfl rfl⟩
  obtain ⟨hends, -⟩ := terminates_under_margin (engine "'\x7b$skill >> 2\x7d'") options states
    accepting_zeros
  obtain ⟨-, hnever⟩ := terminates_under_margin (engine "$skill >> 2") options states
    accepting_zeros
  exact ⟨accepting_zeros, hends hguarded,
    (hnever hcircular).2 _ _ challengeOf?_skillAgainst_four rfl⟩

end Engine

end QualityScript
