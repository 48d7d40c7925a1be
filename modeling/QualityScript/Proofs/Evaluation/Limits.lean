import QualityScript.Proofs.Evaluation.Entries

/-!
# Limits that are not reached

Two evaluations that differ in the limits on depth and on expansions, the second allowing more, go the
same way until the first one stops at a limit. It then leaves a diagnostic, and since diagnostics are
never taken back, a first evaluation without one was followed by the second to its end.
-/

namespace QualityScript

open Randomness

/-- An expansion was stopped by a limit. -/
def Memory.Stopped (mem : Memory) : Prop :=
  ∃ d ∈ mem.diagnostics, d.kind = .recursionLimitExceeded

theorem Memory.Stopped.later {mem mem' : Memory} (h : mem.Stopped)
    (hlater : mem.diagnostics <+: mem'.diagnostics) : mem'.Stopped := by
  obtain ⟨d, hd, hkind⟩ := h
  exact ⟨d, hlater.subset hd, hkind⟩

theorem Memory.stopped_record_tooDeep (mem : Memory) (depth : Nat) (snippet : String) :
    (mem.record (Problem.tooDeep depth snippet).diagnostic).Stopped :=
  mem.exists_kind_record _

/-- The second evaluation follows the first unless the first is stopped by a limit. -/
structure Follows {α : Type} (m : Bool → EvalM α) (mem : Memory) (post : α → Memory → Prop) :
    Prop where
  diagnostics : mem.diagnostics <+: ((m false).runOn mem).2.diagnostics
  post : ∀ {a mem'}, (m false).runOn mem = (.ok a, mem') → post a mem'
  agrees : ¬ ((m false).runOn mem).2.Stopped → (m true).runOn mem = (m false).runOn mem

namespace Follows

variable {α β : Type} {mem : Memory} {post : α → Memory → Prop}

theorem same {m : Bool → EvalM α} (hsame : (m true).runOn mem = (m false).runOn mem)
    (hdiags : mem.diagnostics <+: ((m false).runOn mem).2.diagnostics)
    (hpost : ∀ {a mem'}, (m false).runOn mem = (.ok a, mem') → post a mem') :
    Follows m mem post :=
  ⟨hdiags, hpost, fun _ => hsame⟩

theorem bind {m : Bool → EvalM α} {f : Bool → α → EvalM β} {post : β → Memory → Prop}
    (h : Follows m mem fun a mem' => Follows (fun i => f i a) mem' post) :
    Follows (fun i => m i >>= f i) mem post := by
  rcases hm : (m false).runOn mem with ⟨e | a, mem'⟩
  · have hrun := EvalM.runOn_bind_error hm (f false)
    have hagrees := h.agrees
    refine ⟨?_, fun h' => ?_, fun hstop => ?_⟩
    · simpa only [hrun, hm] using h.diagnostics
    · rw [hrun] at h'
      cases h'
    · rw [hm] at hagrees
      rw [hrun] at hstop ⊢
      exact EvalM.runOn_bind_error (hagrees hstop) (f true)
  · have hrun := EvalM.runOn_bind_ok hm (f false)
    have hf := h.post hm
    have hagrees := h.agrees
    have hdiags := h.diagnostics
    rw [hm] at hagrees hdiags
    refine ⟨?_, fun h' => ?_, fun hstop => ?_⟩
    · rw [hrun]
      exact hdiags.trans hf.diagnostics
    · rw [hrun] at h'
      exact hf.post h'
    · rw [hrun] at hstop ⊢
      have hmid : ¬ mem'.Stopped := fun hs => hstop (hs.later hf.diagnostics)
      rw [EvalM.runOn_bind_ok (hagrees hmid) (f true)]
      exact hf.agrees hstop

theorem mono {m : Bool → EvalM α} {post' : α → Memory → Prop} (h : Follows m mem post)
    (hpost : ∀ a mem', post a mem' → post' a mem') : Follows m mem post' :=
  ⟨h.diagnostics, fun h' => hpost _ _ (h.post h'), h.agrees⟩

theorem draw {d : Draw α} (hpost : ∀ a source, d mem.source = some (a, source) →
      post a { mem with source }) : Follows (fun _ => EvalM.draw d) mem post := by
  refine same rfl ?_ fun {a mem'} h => ?_
  · rw [EvalM.runOn_draw]
    split <;> exact List.prefix_refl _
  · rw [EvalM.runOn_draw] at h
    split at h
    · cases h
    · next hd =>
      cases h
      exact hpost _ _ hd

/-- A descent is stopped by the limits of the second evaluation only where those of the first stop
it too. -/
theorem descend (low high : Config) (hdepth : low.maxDepth ≤ high.maxDepth)
    (hbudget : low.expansionBudget ≤ high.expansionBudget) {frame : Frame} {snippet : String}
    {post : Option Frame → Memory → Prop}
    (hnone : post none (mem.record (Problem.tooDeep frame.depth snippet).diagnostic))
    (hsome : mem.expansions < high.expansionBudget → post (some frame.deeper) mem.spend) :
    Follows (fun i => EvalM.descend (if i then high else low) frame snippet) mem post := by
  by_cases hlow : low.maxDepth ≤ frame.depth ∨ low.expansionBudget ≤ mem.expansions
  · have hrun := EvalM.runOn_descend low frame snippet mem
    rw [if_pos hlow] at hrun
    refine ⟨?_, fun {a mem'} h => ?_, fun hstop => ?_⟩
    · simpa only [Bool.false_eq_true, if_false, hrun] using mem.diagnostics_record _
    · simp only [Bool.false_eq_true, if_false, hrun] at h
      cases h
      exact hnone
    · simp only [Bool.false_eq_true, if_false, hrun] at hstop
      exact absurd (mem.stopped_record_tooDeep frame.depth snippet) hstop
  · have hhigh : ¬ (high.maxDepth ≤ frame.depth ∨ high.expansionBudget ≤ mem.expansions) := by omega
    have hrun := EvalM.runOn_descend low frame snippet mem
    have hrun' := EvalM.runOn_descend high frame snippet mem
    rw [if_neg hlow] at hrun
    rw [if_neg hhigh] at hrun'
    refine same ?_ ?_ fun {a mem'} h => ?_
    · simp only [Bool.false_eq_true, if_false, if_true, hrun, hrun']
    · simp only [Bool.false_eq_true, if_false, hrun]
      exact List.prefix_refl _
    · simp only [Bool.false_eq_true, if_false, hrun] at h
      cases h
      exact hsome (by omega)

end Follows

/-- Two limits with the second one higher. -/
structure Limits where
  low : Bounds
  high : Bounds
  depth_le : low.maxDepth ≤ high.maxDepth
  budget_le : low.expansionBudget ≤ high.expansionBudget
  attempts_eq : high.attempts = low.attempts

def Limits.logic (limits : Limits) : Logic Bool where
  bounds i := if i then limits.high else limits.low
  budget := limits.high.expansionBudget
  rel := Follows
  pure h := .same rfl (List.prefix_refl _) fun h' => by cases h'; exact h
  bind := Follows.bind
  mono := Follows.mono
  record h := .same rfl (Memory.diagnostics_record _ _) fun h' => by cases h'; exact h
  alias? h := .same rfl (List.prefix_refl _) fun h' => by cases h'; exact h
  bindAlias h := .same rfl (Memory.later_bind _ _ _).diagnostics fun h' => by cases h'; exact h
  draw {_ d mem post} _ h := by
    have hsame : Follows (fun _ => EvalM.draw (d limits.low.attempts)) mem post :=
      .draw fun a source hs => h _ a source hs
    have heq (i : Bool) : (if i then limits.high else limits.low).attempts = limits.low.attempts := by
      cases i
      · rfl
      · exact limits.attempts_eq
    simp only [heq]
    exact hsame
  descend {config frame snippet mem post} hnone hsome := by
    have h := Follows.descend (config.within limits.low) (config.within limits.high)
      limits.depth_le limits.budget_le hnone hsome
    have heq (i : Bool) : config.within (if i then limits.high else limits.low) =
        if i then config.within limits.high else config.within limits.low := by cases i <;> rfl
    simp only [heq]
    exact h

instance (limits : Limits) : limits.logic.Lenient :=
  ⟨Follows.same rfl (List.prefix_refl _) fun h' => by cases h'⟩

/-! ## Calls of the engine -/

/-- No expansion was stopped by a limit. -/
def Evaluation.WithinLimits {α : Type} (e : Evaluation α) : Prop :=
  ∀ d ∈ e.diagnostics, d.kind ≠ .recursionLimitExceeded

instance {α : Type} (e : Evaluation α) : Decidable e.WithinLimits :=
  inferInstanceAs (Decidable (∀ d ∈ e.diagnostics, d.kind ≠ .recursionLimitExceeded))

namespace Engine

def withLimits (engine : Engine) (maxDepth expansionBudget : Nat) : Engine :=
  { engine with config := { engine.config with maxDepth, expansionBudget } }

/-- Raising the limits changes nothing of a call that was not stopped by them: neither its result nor
its diagnostics, its aliases or what it took from the random source. -/
def LimitsUnseen {α : Type} (engine : Engine) (call : Engine → Evaluation α) : Prop :=
  ∀ maxDepth expansionBudget, engine.config.maxDepth ≤ maxDepth →
    engine.config.expansionBudget ≤ expansionBudget → (call engine).WithinLimits →
    call (engine.withLimits maxDepth expansionBudget) = call engine

theorem limitsUnseen_run {α : Type} {m : Env → Evaluator → Frame → EvalM α} (hm : Entry m)
    (engine : Engine) (fuel : Nat) (states : Snapshot) (options : CallOptions) :
    engine.LimitsUnseen fun e => e.run fuel states options m := by
  intro maxDepth expansionBudget hdepth hbudget hwithin
  let limits : Limits :=
    { low := ⟨engine.config.maxDepth, engine.config.expansionBudget, fuel⟩
      high := ⟨maxDepth, expansionBudget, fuel⟩
      depth_le := hdepth
      budget_le := hbudget
      attempts_eq := rfl }
  let env := engine.env fuel states
  let mem := Memory.fresh (options.source.getD engine.fallbackSource)
  have hall (t : Task) : limits.logic.Answers (.nothing env)
      (fun i => evaluator (env.within (limits.logic.bounds i)) fuel) t mem :=
    Eval.answers_evaluator
      (fun mem post => Follows.same rfl (List.prefix_refl _) fun h => by cases h) fuel t mem
  have hat : (Kept.nothing env).At mem mem (.new options.depth options.self) :=
    Kept.at_nothing _ _
  have hrun := (hm.gives hall hat).agrees fun ⟨d, hd, hkind⟩ => hwithin d hd hkind
  exact congrArg (fun ended => (⟨ended.1, ended.2⟩ : Evaluation α)) hrun

/-- The limits cannot be seen by any call that does not report them. -/
theorem limits_unseen (engine : Engine) (fuel : Nat) (states : Snapshot) (options : CallOptions) :
    (∀ template, engine.LimitsUnseen fun e => e.evaluateText fuel template states options) ∧
    (∀ condition, engine.LimitsUnseen fun e => e.evaluateCondition fuel condition states options) ∧
    (∀ template, engine.LimitsUnseen fun e => e.evaluateBlock fuel template states options) ∧
    (∀ input, engine.LimitsUnseen fun e => e.skillCheckChance fuel input states options) ∧
    (∀ definition state, engine.LimitsUnseen fun e =>
      e.renderDefinition fuel definition state states options) ∧
    (∀ id, engine.LimitsUnseen fun e => e.renderQuality fuel id states options) ∧
    (∀ event option, engine.LimitsUnseen fun e =>
      e.resolveOption fuel event option states options) :=
  ⟨fun template => limitsUnseen_run (.text template) engine fuel states options,
    fun condition => limitsUnseen_run (.condition condition) engine fuel states options,
    fun template => limitsUnseen_run (.block template) engine fuel states options,
    fun input => limitsUnseen_run (.chance input) engine fuel states options,
    fun definition state =>
      limitsUnseen_run (.quality definition.id (some definition) state) engine fuel states options,
    fun id => limitsUnseen_run (.quality id (engine.registry.quality? id) none) engine fuel states
      options,
    fun event option => limitsUnseen_run
      (.choice ((engine.registry.event? event).bind fun e => e.option? option)) engine fuel states
      options⟩

/-- A name that needs the one expansion that the limits allow. -/
theorem limits_unseen_of_name :
    let library := Content.Library.ofLists
      [{ Quality.Definition.new "gold" with name := "\x7b$.level\x7d coins" }] []
    let engine : Engine :=
      ⟨library.registry, { Config.default with maxDepth := 1, expansionBudget := 1 }, .zeros⟩
    let text (engine : Engine) :=
      engine.evaluateText 9 "You have \x7b$gold.name\x7d" ⟨.empty, none⟩ .none
    (text engine).WithinLimits ∧ text (engine.withLimits 10 4096) = text engine := by
  intro library engine text
  have hwithin : (text engine).WithinLimits := by decide +kernel
  exact ⟨hwithin, (limits_unseen engine 9 ⟨.empty, none⟩ .none).1 _ 10 4096 (by decide) (by decide)
    hwithin⟩

end Engine

end QualityScript
