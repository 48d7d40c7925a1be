import QualityScript.Proofs.Evaluation.Entries

/-!
# Evaluators with more fuel

An evaluator with more fuel, for its steps and for its draws, goes the same way as one with less until
the latter runs out. So what an evaluation finished stays as it is when the evaluator gets more fuel:
its result, its diagnostics, its aliases and what it drew.
-/

namespace QualityScript

open Randomness

/-- If the first evaluation ends, the second one goes the same way. -/
def Continues {α : Type} (m : Bool → EvalM α) (mem : Memory) (post : α → Memory → Prop) : Prop :=
  ((m false).runOn mem).1 ≠ .error .unfinished →
    (m true).runOn mem = (m false).runOn mem ∧
      ∀ a mem', (m false).runOn mem = (.ok a, mem') → post a mem'

namespace Continues

variable {α β : Type} {mem : Memory} {post : α → Memory → Prop}

theorem same {m : EvalM α} (hpost : ∀ a mem', m.runOn mem = (.ok a, mem') → post a mem') :
    Continues (fun _ => m) mem post := fun _ => ⟨rfl, hpost⟩

theorem bind {m : Bool → EvalM α} {f : Bool → α → EvalM β} {post : β → Memory → Prop}
    (h : Continues m mem fun a mem' => Continues (fun i => f i a) mem' post) :
    Continues (fun i => m i >>= f i) mem post := by
  intro hfinished
  rcases hm : (m false).runOn mem with ⟨e | a, mem'⟩
  · have hrun := EvalM.runOn_bind_error hm (f false)
    rw [hrun] at hfinished ⊢
    have hfinished' : ((m false).runOn mem).1 ≠ .error .unfinished := by
      rw [hm]
      rintro ⟨⟩
      exact hfinished rfl
    have hsame := (h hfinished').1
    refine ⟨EvalM.runOn_bind_error (hsame.trans hm) (f true), fun b mem'' hb => ?_⟩
    cases hb
  · have hrun := EvalM.runOn_bind_ok hm (f false)
    rw [hrun] at hfinished ⊢
    obtain ⟨hsame, hpost⟩ := h (by rw [hm]; exact fun h => by cases h)
    obtain ⟨hsame', hpost'⟩ := hpost a mem' hm hfinished
    exact ⟨(EvalM.runOn_bind_ok (hsame.trans hm) (f true)).trans hsame', hpost'⟩

theorem mono {m : Bool → EvalM α} {post' : α → Memory → Prop} (h : Continues m mem post)
    (hpost : ∀ a mem', post a mem' → post' a mem') : Continues m mem post' := by
  intro hfinished
  obtain ⟨hsame, hpost'⟩ := h hfinished
  exact ⟨hsame, fun a mem' ha => hpost a mem' (hpost' a mem' ha)⟩

end Continues

theorem Continues.draw {α : Type} {d : Nat → Draw α} (hd : Draw.Proper d) {mem : Memory}
    {post : α → Memory → Prop} (bound : Bool → Nat) (hbound : bound false ≤ bound true)
    (hpost : ∀ n a source, d n mem.source = some (a, source) → post a { mem with source }) :
    Continues (fun i => EvalM.draw (d (bound i))) mem post := by
  intro hfinished
  simp only [EvalM.runOn_draw] at hfinished ⊢
  cases hless : d (bound false) mem.source with
  | none => simp [hless] at hfinished
  | some drawn =>
    rw [hd.mono hless hbound]
    refine ⟨rfl, fun a mem' h' => ?_⟩
    cases h'
    exact hpost _ _ _ hless

theorem Continues.descend (config : Config) {frame : Frame} {snippet : String} {mem : Memory}
    {post : Option Frame → Memory → Prop}
    (hnone : post none (mem.record (Problem.tooDeep frame.depth snippet).diagnostic))
    (hsome : mem.expansions < config.expansionBudget → post (some frame.deeper) mem.spend) :
    Continues (fun _ => EvalM.descend config frame snippet) mem post := by
  refine .same fun a mem' h' => ?_
  rw [EvalM.runOn_descend] at h'
  split at h'
  · cases h'
    exact hnone
  · next hfree =>
    cases h'
    exact hsome (Nat.lt_of_not_le fun hle => hfree (.inr hle))

def continuesLogic (b : Bounds) (extra : Nat) : Logic Bool where
  bounds i := { b with attempts := b.attempts + if i then extra else 0 }
  budget := b.expansionBudget
  rel := Continues
  pure h := .same fun _ _ h' => by cases h'; exact h
  bind := Continues.bind
  mono := Continues.mono
  record h := .same fun _ _ h' => by cases h'; exact h
  alias? h := .same fun _ _ h' => by cases h'; exact h
  bindAlias h := .same fun _ _ h' => by cases h'; exact h
  draw hd h := .draw hd _ (by simp) h
  descend {config _ _ _ _} hnone hsome := Continues.descend (config.within b) hnone hsome

instance (b : Bounds) (extra : Nat) : (continuesLogic b extra).Lenient :=
  ⟨Continues.same fun _ _ h' => by cases h'⟩

/-- By induction on the smaller amount of fuel. -/
theorem answers_continues {env : Env} (b : Bounds) (extra more fuel : Nat) (t : Task)
    (start : Memory) :
    (continuesLogic b extra).Answers (.nothing env)
      (fun i => evaluator (env.within ((continuesLogic b extra).bounds i))
        (if i then more + fuel else fuel)) t start := by
  induction fuel generalizing t start with
  | zero =>
    intro mem frame _ hfinished
    cases t <;> exact absurd rfl hfinished
  | succ fuel ih =>
    have hstep := Eval.answers_step (t := t) (fun t' _ => ih t' start) fun t' mem _ => ih t' mem
    have hsame (i : Bool) : evaluator (env.within ((continuesLogic b extra).bounds i))
          (if i then more + (fuel + 1) else fuel + 1) =
        (evaluator (env.within ((continuesLogic b extra).bounds i))
          (if i then more + fuel else fuel)).step (env.within ((continuesLogic b extra).bounds i)) := by
      cases i <;> rfl
    simp only [hsame]
    exact hstep

/-- What an evaluation finishes it finishes in the same way with more fuel. -/
theorem Entry.runOn_of_le {α : Type} {m : Env → Evaluator → Frame → EvalM α} (hm : Entry m)
    {env env' : Env} {fuel fuel' : Nat} (henv : env' = { env with attempts := env'.attempts })
    (hattempts : env.attempts ≤ env'.attempts) (hle : fuel ≤ fuel') {frame : Frame} {mem : Memory}
    (hfinished : ((m env (evaluator env fuel) frame).runOn mem).1 ≠ .error .unfinished) :
    (m env' (evaluator env' fuel') frame).runOn mem =
      (m env (evaluator env fuel) frame).runOn mem := by
  obtain ⟨more, rfl⟩ := Nat.exists_eq_add_of_le' hle
  obtain ⟨extra, hextra⟩ := Nat.exists_eq_add_of_le hattempts
  rw [hextra] at henv
  subst henv
  let b : Bounds := ⟨env.config.maxDepth, env.config.expansionBudget, env.attempts⟩
  have hat : (Kept.nothing env).At mem mem frame := Kept.at_nothing _ _
  have hcontinues : (continuesLogic b extra).Gives (.nothing env)
      (fun i => m (env.within ((continuesLogic b extra).bounds i))
        (evaluator (env.within ((continuesLogic b extra).bounds i))
          (if i then more + fuel else fuel)) frame)
      mem fun _ => True := hm.gives (fun t => answers_continues b extra more fuel t mem) hat
  exact (hcontinues hfinished).1

/-- What a call finishes it finishes in the same way with more fuel. -/
theorem Entry.run_of_le {α : Type} {m : Env → Evaluator → Frame → EvalM α} (hm : Entry m)
    {engine : Engine} {fuel fuel' : Nat} (hle : fuel ≤ fuel') {states : Snapshot}
    {options : CallOptions}
    (hfinished : (engine.run fuel states options m).result ≠ .error .unfinished) :
    engine.run fuel' states options m = engine.run fuel states options m := by
  rw [Engine.run_eq] at hfinished
  have henv : engine.env fuel' states =
      { engine.env fuel states with attempts := (engine.env fuel' states).attempts } := rfl
  have hrun := hm.runOn_of_le henv hle hle hfinished
  simp only [Engine.run_eq]
  exact congrArg (fun ended => (⟨ended.1, ended.2⟩ : Evaluation α)) hrun

/-- The value that a call ends with is the one that it has with more fuel for the evaluator. -/
theorem Entry.exists_runOn_of_run {α : Type} {m : Env → Evaluator → Frame → EvalM α} (hm : Entry m)
    {engine : Engine} {fuel : Nat} {states : Snapshot} {options : CallOptions} {a : α}
    (h : (engine.run fuel states options m).result = .ok a) (more : Nat) :
    ∃ mem, (m (engine.env fuel states) (evaluator (engine.env fuel states) (fuel + more))
        (.new options.depth options.self)).runOn
      (.fresh (options.source.getD engine.fallbackSource)) = (.ok a, mem) := by
  rw [Engine.run_eq] at h
  have hrun := hm.runOn_of_le rfl (Nat.le_refl _) (Nat.le_add_right fuel more)
    (h.trans_ne (by simp))
  exact ⟨_, hrun.trans (Prod.ext h rfl)⟩

end QualityScript
