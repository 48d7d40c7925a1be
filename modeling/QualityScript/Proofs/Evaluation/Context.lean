import QualityScript.Proofs.Evaluation.Depth
import QualityScript.Proofs.Evaluation.Entries

/-!
# What every evaluation keeps of its context

However an evaluation ends, with a value or early, the memory it leaves is a later one: aliases are
bound once, diagnostics stay in their order and there is one per kind and snippet, and expansions are
counted up to the budget. This is read off from one logic, in which the memory is looked at whatever
the result is.
-/

namespace QualityScript

open Randomness

/-- What can be evaluated in a frame. -/
inductive Job where
  | task (t : Task)
  | call (c : Call)
  | effects (list : List EffectExpr)

abbrev Job.Result : Job → Type
  | .task t => t.Result
  | .call _ => Value
  | .effects _ => Effect

def Job.run (env : Env) (self : Evaluator) : (j : Job) → Frame → EvalM j.Result
  | .task t => self.run t
  | .call c => Eval.call env self c
  | .effects list => Eval.effects env self list

/-- The memories that jobs lead to under a configuration, one after the other, from a fresh one. -/
inductive Memory.Reached (config : Config) : Memory → Prop where
  | fresh (source : Source) : Reached config (.fresh source)
  | evaluated {env : Env} {mem : Memory} (fuel : Nat) (job : Job) (frame : Frame) :
      env.config = config → Reached config mem →
      Reached config ((job.run env (evaluator env fuel) frame).runOn mem).2

/-! ## Sound memories -/

/-- The kind and the snippet of a diagnostic. -/
def Diagnostic.subject (d : Diagnostic) : DiagnosticKind × String := (d.kind, d.snippet)

namespace Memory

/-- No two diagnostics are of one kind about one snippet, and the budget is kept. -/
structure Sound (budget : Nat) (mem : Memory) : Prop where
  distinct : (mem.diagnostics.map Diagnostic.subject).Nodup
  expansions : mem.expansions ≤ budget

variable {budget : Nat} {mem : Memory}

theorem sound_fresh (source : Source) : (Memory.fresh source).Sound budget :=
  ⟨List.nodup_nil, Nat.zero_le _⟩

theorem Sound.record (h : mem.Sound budget) (d : Diagnostic) : (mem.record d).Sound budget := by
  refine ⟨?_, by simpa using h.expansions⟩
  unfold Memory.record
  split
  · exact h.distinct
  · next hseen =>
    have hnew : d.subject ∉ mem.diagnostics.map Diagnostic.subject := by
      intro hmem
      obtain ⟨e, he, heq⟩ := List.mem_map.mp hmem
      obtain ⟨hkind, hsnippet⟩ := Prod.mk.inj heq
      exact hseen (List.any_eq_true.mpr ⟨e, he, decide_eq_true ⟨hkind, hsnippet⟩⟩)
    rw [List.map_append, List.nodup_append]
    exact ⟨h.distinct, by simp, fun a ha b hb hab =>
      hnew (List.mem_singleton.mp hb ▸ hab ▸ ha)⟩

theorem Sound.bind (h : mem.Sound budget) (name : String) (value : Value) :
    (mem.bind name value).2.Sound budget := by
  unfold Memory.bind
  split
  · exact h.record _
  · exact ⟨h.distinct, h.expansions⟩

end Memory

/-! ## Evaluations that end in any way -/

/-- From a sound memory the evaluation leaves a later one that is sound, with a value or without;
a value is as wanted. -/
def Leaves {α : Type} (budget : Nat) (m : EvalM α) (mem : Memory) (post : α → Memory → Prop) : Prop :=
  mem.Sound budget → mem.Later (m.runOn mem).2 ∧ (m.runOn mem).2.Sound budget ∧
    ∀ a, (m.runOn mem).1 = .ok a → post a (m.runOn mem).2

namespace Leaves

variable {α β : Type} {budget : Nat} {mem : Memory}

theorem of_runOn {m : EvalM α} {a : α} {mem' : Memory} {post : α → Memory → Prop}
    (hrun : m.runOn mem = (.ok a, mem')) (hlater : mem.Later mem')
    (hsound : mem.Sound budget → mem'.Sound budget) (h : post a mem') : Leaves budget m mem post := by
  intro hmem
  rw [hrun]
  exact ⟨hlater, hsound hmem, fun b hb => by cases hb; exact h⟩

theorem throw (e : Abort) (post : α → Memory → Prop) :
    Leaves budget (MonadExcept.throw e : EvalM α) mem post :=
  fun hmem => ⟨.refl mem, hmem, fun _ h => nomatch h⟩

theorem bind {m : EvalM α} {f : α → EvalM β} {post : β → Memory → Prop}
    (h : Leaves budget m mem fun a mem' => Leaves budget (f a) mem' post) :
    Leaves budget (m >>= f) mem post := by
  intro hmem
  obtain ⟨hlater, hsound, hpost⟩ := h hmem
  rcases hrun : m.runOn mem with ⟨e | a, mem'⟩
  · rw [hrun] at hlater hsound
    rw [EvalM.runOn_bind_error hrun]
    exact ⟨hlater, hsound, fun _ h => nomatch h⟩
  · rw [hrun] at hlater hsound hpost
    rw [EvalM.runOn_bind_ok hrun]
    obtain ⟨hlater', hsound', hpost'⟩ := hpost a rfl hsound
    exact ⟨hlater.trans hlater', hsound', hpost'⟩

theorem mono {m : EvalM α} {post post' : α → Memory → Prop} (h : Leaves budget m mem post)
    (hpost : ∀ a mem', post a mem' → post' a mem') : Leaves budget m mem post' := by
  intro hmem
  obtain ⟨hlater, hsound, hvalue⟩ := h hmem
  exact ⟨hlater, hsound, fun a ha => hpost a _ (hvalue a ha)⟩

theorem draw {d : Nat → Draw α} {n : Nat} (hd : Draw.Proper d) {post : α → Memory → Prop}
    (h : ∀ a source, d n mem.source = some (a, source) → post a { mem with source }) :
    Leaves budget (EvalM.draw (d n)) mem post := by
  cases hdrawn : d n mem.source with
  | none =>
    intro hmem
    rw [EvalM.runOn_draw, hdrawn]
    exact ⟨.refl mem, hmem, fun _ h => nomatch h⟩
  | some drawn =>
    obtain ⟨a, source⟩ := drawn
    exact of_runOn (by rw [EvalM.runOn_draw, hdrawn]) (Memory.later_drawn (hd.before hdrawn))
      (fun hmem => ⟨hmem.distinct, hmem.expansions⟩) (h a source hdrawn)

theorem descend {config : Config} (hbudget : config.expansionBudget = budget) {frame : Frame}
    {snippet : String} {post : Option Frame → Memory → Prop}
    (hnone : post none (mem.record (Problem.tooDeep frame.depth snippet).diagnostic))
    (hsome : mem.expansions < budget → post (some frame.deeper) mem.spend) :
    Leaves budget (EvalM.descend config frame snippet) mem post := by
  subst hbudget
  by_cases hstop : config.maxDepth ≤ frame.depth ∨ config.expansionBudget ≤ mem.expansions
  · exact of_runOn (by rw [EvalM.runOn_descend, if_pos hstop]) (mem.later_record _)
      (fun hmem => hmem.record _) hnone
  · have hleft : mem.expansions < config.expansionBudget := by omega
    exact of_runOn (by rw [EvalM.runOn_descend, if_neg hstop]) mem.later_spend
      (fun hmem => ⟨hmem.distinct, hleft⟩) (hsome hleft)

end Leaves

/-- Reading one evaluation within the bounds, whether it ends with a value or early. -/
def Bounds.endings (b : Bounds) : Logic Unit where
  bounds _ := b
  budget := b.expansionBudget
  rel m := Leaves b.expansionBudget (m ())
  pure {_ _ mem _} h := .of_runOn rfl (.refl mem) id h
  bind := .bind
  mono := .mono
  record {_ mem _} h := .of_runOn rfl (mem.later_record _) (fun hmem => hmem.record _) h
  alias? {_ mem _} h := .of_runOn rfl (.refl mem) id h
  bindAlias {name value mem _} h :=
    .of_runOn rfl (mem.later_bind name value) (fun hmem => hmem.bind name value) h
  draw hd h := .draw hd fun a source hs => h _ a source hs
  descend {config _ _ _ _} hnone hsome :=
    Leaves.descend (rfl : (config.within b).expansionBudget = b.expansionBudget) hnone hsome

instance (b : Bounds) : b.endings.Lenient where
  fail {_ _ post} := Leaves.throw _ post

/-! ## Jobs done by the evaluator -/

theorem Leaves.of_gives {α : Type} {env : Env} {m : EvalM α} {mem : Memory} {post : α → Prop}
    (h : env.bounds.endings.Gives (Kept.nothing env) (fun _ => m) mem post) :
    Leaves env.config.expansionBudget m mem fun _ _ => True := by
  have hends : Leaves env.config.expansionBudget m mem fun a mem' =>
      mem.Later mem' ∧ (Kept.nothing env).memory mem' ∧ post a := h
  exact hends.mono fun _ _ _ => trivial

theorem Env.answers_endings (env : Env) (fuel : Nat) (t : Task) (start : Memory) :
    env.bounds.endings.Answers (Kept.nothing env) (fun _ => evaluator env fuel) t start :=
  Eval.answers_evaluator (fun _ post => Leaves.throw _ post) fuel t start

theorem Job.leaves (env : Env) (fuel : Nat) (job : Job) (frame : Frame) (mem : Memory) :
    Leaves env.config.expansionBudget (job.run env (evaluator env fuel) frame) mem
      fun _ _ => True := by
  have hanswers (t : Task) := env.answers_endings fuel t mem
  have hat : (Kept.nothing env).At mem mem frame := Kept.at_nothing _ _
  cases job with
  | task t => exact .of_gives (hanswers t hat)
  | call c =>
    exact .of_gives (Eval.gives_call (fun t _ => hanswers t)
      (fun t mem _ => env.answers_endings fuel t mem) hat)
  | effects list =>
    exact .of_gives (Eval.gives_effects (fun _ => True) (fun e _ => hanswers (.expr e))
      (fun text _ => hanswers (.expand false text)) (fun _ _ => trivial) hat)

/-- A job that starts within the limit of depth asks for nothing in a frame beyond it. -/
theorem Job.run_downTo {env : Env} {limit : Nat} (hlimit : env.config.maxDepth ≤ limit)
    (other : Evaluator) (fuel : Nat) (job : Job) {frame : Frame} (hframe : frame.depth ≤ limit) :
    job.run env (evaluatorDownTo env limit other fuel) frame =
      job.run env (evaluator env fuel) frame := by
  have hagree := agreeTo_evaluatorDownTo hlimit other fuel
  cases job with
  | task t => exact hagree t frame hframe
  | call c => exact hagree.call hframe hlimit c
  | effects list => exact hagree.effects hframe list

theorem Memory.Reached.sound {config : Config} {mem : Memory} (h : mem.Reached config) :
    mem.Sound config.expansionBudget := by
  induction h with
  | fresh source => exact sound_fresh source
  | evaluated fuel job frame hconfig _ ih =>
    subst hconfig
    exact (job.leaves _ fuel frame _ ih).2.1

/-- Whatever is evaluated, in a memory that evaluations led to and in a frame within the limit: bound
aliases keep their values, diagnostics are added behind those that are there and never twice about
the same, expansions are counted up to the budget, and no frame is deeper than the limit, for what
another evaluator does in deeper frames makes no difference. -/
theorem Job.keeps_context (env : Env) (fuel : Nat) (job : Job) (start : Nat) (frame : Frame)
    (mem : Memory) (hmem : mem.Reached env.config)
    (hframe : frame.depth ≤ max start env.config.maxDepth) :
    let mem' := ((job.run env (evaluator env fuel) frame).runOn mem).2
    (∀ name value, mem.alias? name = some value → mem'.alias? name = some value) ∧
      mem.diagnostics <+: mem'.diagnostics ∧
      (mem'.diagnostics.map fun d => (d.kind, d.snippet)).Nodup ∧
      mem.expansions ≤ mem'.expansions ∧ mem'.expansions ≤ env.config.expansionBudget ∧
      ∀ other, job.run env (evaluatorDownTo env (max start env.config.maxDepth) other fuel) frame =
        job.run env (evaluator env fuel) frame := by
  obtain ⟨hlater, hsound, -⟩ := job.leaves env fuel frame mem hmem.sound
  exact ⟨fun _ _ h => hlater.aliases h, hlater.diagnostics, hsound.distinct, hlater.expansions,
    hsound.expansions, fun other => run_downTo (Nat.le_max_right _ _) other fuel job hframe⟩

/-- An alias that is bound again keeps its first value. -/
theorem Job.keeps_context_of_rebinding :
    let env : Env := ⟨.empty, .empty, Content.Library.empty.registry, .default, 1⟩
    let first := Job.task (.content .standalone "@x = red")
    let again := Job.task (.content .standalone "@x = blue")
    let mem := ((first.run env (evaluator env 5) (.new 0 none)).runOn (.fresh (.seeded 0))).2
    let mem' := ((again.run env (evaluator env 5) (.new 12 none)).runOn mem).2
    (mem.alias? "x").map Value.display = some "red" ∧
      (∀ name value, mem.alias? name = some value → mem'.alias? name = some value) ∧
      mem.diagnostics <+: mem'.diagnostics ∧ mem'.diagnostics.map (·.kind) = [.aliasRebound] := by
  intro env first again mem mem'
  have hmem : mem.Reached env.config :=
    .evaluated 5 first (.new 0 none) rfl (.fresh (.seeded 0))
  have hframe : (Frame.new 12 none).depth ≤ max 12 env.config.maxDepth := Nat.le_max_left _ _
  obtain ⟨haliases, hdiagnostics, -⟩ := keeps_context env 5 again 12 (.new 12 none) mem hmem hframe
  exact ⟨by decide +kernel, haliases, hdiagnostics, by decide +kernel⟩

end QualityScript
