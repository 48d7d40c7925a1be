import QualityScript.Proofs.Evaluation.Entries
import QualityScript.Proofs.Syntax.Reading

/-!
# Evaluations end

On a source whose rejection loops end, evaluating ends: all large enough bounds on the nesting and on
the draws give one result, and it is not the one of an unfinished evaluation.

Each descent takes one from the budget of expansions. Between two descents an evaluation only goes
into parts: of a block, of a leaf read as an expression, of an expression, and of the templates on
its changes. The ink of texts and the weight of expressions go down there, so the budget and the rank
of the task, in this order, decrease. A margin expression of the settings is no part of what asks for
it. It is evaluated again for every challenge without a margin in it, so it must meet none on its own
level; then asking for it happens once between two descents.
-/

namespace QualityScript

open Randomness

/-- With large enough bounds on draws and on nesting there is one result, a finished one. -/
def Ends {α : Type} (m : Nat × Nat → EvalM α) (mem : Memory) (post : α → Memory → Prop) : Prop :=
  mem.source.Accepting → ∃ result mem', result ≠ .error .unfinished ∧
    mem.source.Before mem'.source ∧ (∀ a, result = .ok a → post a mem') ∧
    ∃ n, ∀ i, n ≤ i.1 → n ≤ i.2 → (m i).runOn mem = (result, mem')

namespace Ends

variable {α β : Type} {mem : Memory} {post : α → Memory → Prop}

theorem always {m : Nat × Nat → EvalM α} {result : Except Abort α} {mem' : Memory}
    (hfinished : result ≠ .error .unfinished) (hbefore : mem.source.Before mem'.source)
    (hpost : ∀ a, result = .ok a → post a mem') (hrun : ∀ i, (m i).runOn mem = (result, mem')) :
    Ends m mem post :=
  fun _ => ⟨result, mem', hfinished, hbefore, hpost, 0, fun i _ _ => hrun i⟩

theorem ok {m : Nat × Nat → EvalM α} {a : α} {mem' : Memory}
    (hbefore : mem.source.Before mem'.source) (hpost : post a mem')
    (hrun : ∀ i, (m i).runOn mem = (.ok a, mem')) : Ends m mem post :=
  always (by simp) hbefore (fun _ h => by cases h; exact hpost) hrun

theorem bind {m : Nat × Nat → EvalM α} {f : Nat × Nat → α → EvalM β} {post : β → Memory → Prop}
    (h : Ends m mem fun a mem' => Ends (fun i => f i a) mem' post) :
    Ends (fun i => m i >>= f i) mem post := by
  intro hsource
  obtain ⟨result, mem', hfinished, hbefore, hpost, n, hrun⟩ := h hsource
  cases result with
  | error e =>
    refine ⟨.error e, mem', by simpa using hfinished, hbefore, ?_, n, fun i h₁ h₂ => ?_⟩
    · intro _ h
      cases h
    · exact EvalM.runOn_bind_error (hrun i h₁ h₂) (f i)
  | ok a =>
    obtain ⟨result, mem'', hfinished', hbefore', hpost', k, hrun'⟩ :=
      hpost a rfl (hsource.later hbefore)
    refine ⟨result, mem'', hfinished', hbefore.trans hbefore', hpost', max n k, fun i h₁ h₂ => ?_⟩
    rw [EvalM.runOn_bind_ok (hrun i (by omega) (by omega)) (f i)]
    exact hrun' i (by omega) (by omega)

theorem mono {m : Nat × Nat → EvalM α} {post' : α → Memory → Prop} (h : Ends m mem post)
    (hpost : ∀ a mem', post a mem' → post' a mem') : Ends m mem post' := by
  intro hsource
  obtain ⟨result, mem', hfinished, hbefore, hpost', hrun⟩ := h hsource
  exact ⟨result, mem', hfinished, hbefore, fun a ha => hpost _ _ (hpost' a ha), hrun⟩

theorem draw {d : Nat → Draw α} (hd : Draw.Proper d)
    (hpost : ∀ n a source, d n mem.source = some (a, source) → post a { mem with source }) :
    Ends (fun i => EvalM.draw (d i.1)) mem post := by
  intro hsource
  obtain ⟨n, a, source, hn⟩ := hd.ends hsource
  have hfirst := hn n (Nat.le_refl n)
  refine ⟨.ok a, { mem with source }, by simp, hd.before hfirst, ?_, n, fun i h₁ _ => ?_⟩
  · intro _ h
    cases h
    exact hpost n a source hfirst
  · rw [EvalM.runOn_draw, hn i.1 h₁]

theorem descend (config : Config) {frame : Frame} {snippet : String}
    {post : Option Frame → Memory → Prop}
    (hnone : post none (mem.record (Problem.tooDeep frame.depth snippet).diagnostic))
    (hsome : mem.expansions < config.expansionBudget → post (some frame.deeper) mem.spend) :
    Ends (fun _ => EvalM.descend config frame snippet) mem post := by
  by_cases hstop : config.maxDepth ≤ frame.depth ∨ config.expansionBudget ≤ mem.expansions
  · refine ok (by simpa using .refl _) hnone fun _ => ?_
    rw [EvalM.runOn_descend, if_pos hstop]
  · have hbefore : mem.source.Before mem.spend.source := .refl _
    refine ok hbefore (hsome (by omega)) fun _ => ?_
    rw [EvalM.runOn_descend, if_neg hstop]

theorem of_succ {m m' : Nat × Nat → EvalM α} (h : Ends m mem post)
    (hsucc : ∀ i, m' (i.1, i.2 + 1) = m i) : Ends m' mem post := by
  intro hsource
  obtain ⟨result, mem', hfinished, hbefore, hpost, n, hrun⟩ := h hsource
  refine ⟨result, mem', hfinished, hbefore, hpost, n + 1, fun ⟨attempts, steps⟩ h₁ h₂ => ?_⟩
  obtain ⟨k, rfl⟩ := Nat.exists_eq_add_of_le' (Nat.le_trans (Nat.le_add_left 1 n) h₂)
  rw [hsucc (attempts, k)]
  exact hrun _ (Nat.le_of_succ_le h₁) (Nat.le_of_succ_le_succ h₂)

end Ends

def endsLogic (maxDepth expansionBudget : Nat) : Logic (Nat × Nat) where
  bounds i := ⟨maxDepth, expansionBudget, i.1⟩
  budget := expansionBudget
  rel := Ends
  pure h := .ok (.refl _) h fun _ => rfl
  bind := Ends.bind
  mono := Ends.mono
  record h := .ok (by simpa using .refl _) h fun _ => rfl
  alias? h := .ok (.refl _) h fun _ => rfl
  bindAlias h := .ok (Memory.later_bind _ _ _).source h fun _ => rfl
  draw := Ends.draw
  descend {config _ _ _ _} hnone hsome :=
    Ends.descend (config.within ⟨maxDepth, expansionBudget, 0⟩) hnone hsome

instance (maxDepth expansionBudget : Nat) : (endsLogic maxDepth expansionBudget).Lenient :=
  ⟨Ends.always (by simp) (.refl _) (fun _ h => by cases h) fun _ => rfl⟩

/-! ## Ranks -/

/-- What goes down where a task asks for another on its own level. -/
def Task.rank : Task → Nat
  | .content _ input => 3 * ink input.toList + 2
  | .leaf input => 3 * ink input.toList + 1
  | .expr e => 3 * e.weight
  | .expand _ input => 3 * ink input.toList

/-- The margin of a challenge is computed without an expression of the settings. -/
def MarginPolicy.IsBuiltIn : MarginPolicy → Prop
  | .fixed _ | .multiple _ => True
  | .expression _ => False

theorem Task.Asks.rank_lt {t t' : Task} (h : t.Asks t') : t'.rank < t.rank := by
  cases h with
  | @assigned _ input _ _ hshape =>
    have hink := ink_classify input
    simp only [hshape] at hink
    simp only [Task.rank]
    omega
  | @condition _ input _ condition _ hshape hmem =>
    have hink := ink_classify input
    simp only [hshape] at hink
    have := (hink _ hmem).1 condition rfl
    simp only [Task.rank]
    omega
  | @result _ input _ _ hshape hmem =>
    have hink := ink_classify input
    simp only [hshape] at hink
    have := (hink _ hmem).2
    simp only [Task.rank]
    omega
  | @option _ input _ _ hshape hmem =>
    have hink := ink_classify input
    simp only [hshape] at hink
    have := hink _ hmem
    simp only [Task.rank]
    omega
  | @source _ input _ hshape =>
    have hink := ink_classify input
    simp only [hshape] at hink
    simp only [Task.rank]
    omega
  | parsed hparse =>
    have := Expr.weight_of_parse hparse
    rw [ink_trimmed] at this
    simp only [Task.rank]
    omega
  | block hmem =>
    have := ink_block hmem
    simp only [Task.rank]
    omega
  | part hmem =>
    have := Expr.weight_lt_of_mem_parts hmem
    simp only [Task.rank]
    omega
  | description hmem =>
    have := Expr.ink_lt_weight hmem
    simp only [Task.rank]
    omega

/-! ## Asking for a margin -/

/-- On its own level the task can meet a challenge without a margin. -/
inductive Task.AsksMargin : Task → Prop where
  | here {e c} : e.challenge? = some c → c.margin = none → AsksMargin (.expr e)
  | asked {t t'} : t.Asks t' → AsksMargin t' → AsksMargin t

/-- A margin expression of the settings meets no challenge without a margin, unless a level deeper. -/
def MarginPolicy.IsGuarded : MarginPolicy → Prop
  | .fixed _ | .multiple _ => True
  | .expression source => ∀ e, Expr.parse source = .ok e → ¬ (Task.expr e).AsksMargin

theorem MarginPolicy.IsBuiltIn.isGuarded {policy : MarginPolicy} (h : policy.IsBuiltIn) :
    policy.IsGuarded := by
  cases policy with
  | fixed _ | multiple _ => trivial
  | expression _ => exact h.elim

/-! ## Every task ends -/

def endsEvaluator (env : Env) (maxDepth expansionBudget : Nat) (i : Nat × Nat) : Evaluator :=
  evaluator (env.within ((endsLogic maxDepth expansionBudget).bounds i)) i.2

section Ending

variable {env : Env} {maxDepth expansionBudget : Nat} {start : Memory}

/-- A task ends if what it asks for does, on its level and below. -/
theorem answers_of_inner {t : Task}
    (hinner : (endsLogic maxDepth expansionBudget).AnswersInner (.nothing env)
      (endsEvaluator env maxDepth expansionBudget) t start)
    (hbelow : (endsLogic maxDepth expansionBudget).AnswersBelow (.nothing env)
      (endsEvaluator env maxDepth expansionBudget) start) :
    (endsLogic maxDepth expansionBudget).Answers (.nothing env)
      (endsEvaluator env maxDepth expansionBudget) t start := by
  have hstep : (endsLogic maxDepth expansionBudget).Answers (.nothing env)
      (fun i => (endsEvaluator env maxDepth expansionBudget i).step
        (env.within ((endsLogic maxDepth expansionBudget).bounds i))) t start :=
    Eval.answers_step hinner hbelow
  intro mem frame hat
  exact (hstep hat).of_succ fun _ => rfl

/-- By induction on the rank: what such a task asks for asks for no margin either. -/
theorem answers_of_not_asksMargin
    (hbelow : (endsLogic maxDepth expansionBudget).AnswersBelow (.nothing env)
      (endsEvaluator env maxDepth expansionBudget) start) (t : Task) (ht : ¬ t.AsksMargin) :
    (endsLogic maxDepth expansionBudget).Answers (.nothing env)
      (endsEvaluator env maxDepth expansionBudget) t start := by
  induction hrank : t.rank using Nat.strongRecOn generalizing t with
  | ind rank ih =>
    subst hrank
    refine answers_of_inner (fun t' hinner => ?_) hbelow
    cases hinner with
    | asked hasked =>
      exact ih _ hasked.rank_lt t' (fun h => ht (.asked hasked h)) rfl
    | margin hchallenge hnone _ _ => exact (ht (.here hchallenge hnone)).elim

/-- By induction on the rank: the margin of the settings, which need not be below a task that asks
for it, asks for no margin. -/
theorem answers_of_isGuarded (hmargin : env.config.margin.IsGuarded)
    (hbelow : (endsLogic maxDepth expansionBudget).AnswersBelow (.nothing env)
      (endsEvaluator env maxDepth expansionBudget) start) (t : Task) :
    (endsLogic maxDepth expansionBudget).Answers (.nothing env)
      (endsEvaluator env maxDepth expansionBudget) t start := by
  induction hrank : t.rank using Nat.strongRecOn generalizing t with
  | ind rank ih =>
    subst hrank
    refine answers_of_inner (fun t' hinner => ?_) hbelow
    cases hinner with
    | asked hasked => exact ih _ hasked.rank_lt t' rfl
    | margin _ _ hpolicy hparse =>
      rw [hpolicy] at hmargin
      exact answers_of_not_asksMargin hbelow _ (hmargin _ hparse)

/-- By induction on what is left of the budget. -/
theorem answers_ends (hmargin : env.config.margin.IsGuarded) (t : Task) (start : Memory) :
    (endsLogic maxDepth expansionBudget).Answers (.nothing env)
      (endsEvaluator env maxDepth expansionBudget) t start := by
  induction hleft : (endsLogic maxDepth expansionBudget).left start using Nat.strongRecOn
    generalizing t start with
  | ind left ih =>
    subst hleft
    exact answers_of_isGuarded hmargin (fun t' mem h => ih _ h t' mem rfl) t

end Ending

/-! ## Every call ends -/

/-- All large enough numbers of steps give one result, a finished one. -/
def Evaluation.Terminates {α : Type} (call : Nat → Evaluation α) : Prop :=
  ∃ e, e.result ≠ .error .unfinished ∧ ∃ n, ∀ fuel, n ≤ fuel → call fuel = e

open Evaluation

namespace Engine

theorem terminates_run_of_isGuarded {α : Type} {m : Env → Evaluator → Frame → EvalM α}
    (hm : Entry m) {engine : Engine} {options : CallOptions}
    (hmargin : engine.config.margin.IsGuarded)
    (hsource : (options.source.getD engine.fallbackSource).Accepting) (states : Snapshot) :
    Terminates fun fuel => engine.run fuel states options m := by
  let mem := Memory.fresh (options.source.getD engine.fallbackSource)
  have hall (t : Task) : (endsLogic engine.config.maxDepth engine.config.expansionBudget).Answers
      (.nothing (engine.env 0 states)) (endsEvaluator (engine.env 0 states) _ _) t mem :=
    answers_ends hmargin t mem
  have hat : (Kept.nothing (engine.env 0 states)).At mem mem (.new options.depth options.self) :=
    Kept.at_nothing _ _
  obtain ⟨result, mem', hfinished, -, -, n, hrun⟩ := hm.gives hall hat hsource
  refine ⟨⟨result, mem'⟩, hfinished, n, fun fuel hfuel => ?_⟩
  exact congrArg (fun ended => (⟨ended.1, ended.2⟩ : Evaluation α)) (hrun (fuel, fuel) hfuel hfuel)

theorem terminates_run {α : Type} {m : Env → Evaluator → Frame → EvalM α} (hm : Entry m)
    {engine : Engine} {options : CallOptions} (hmargin : engine.config.margin.IsBuiltIn)
    (hsource : (options.source.getD engine.fallbackSource).Accepting) (states : Snapshot) :
    Terminates fun fuel => engine.run fuel states options m :=
  terminates_run_of_isGuarded hm hmargin.isGuarded hsource states

end Engine

end QualityScript
