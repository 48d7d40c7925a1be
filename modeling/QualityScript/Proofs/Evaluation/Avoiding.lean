import QualityScript.Proofs.Effects.Orders
import QualityScript.Proofs.Evaluation.Depth
import QualityScript.Proofs.Evaluation.Fuel
import QualityScript.Proofs.Evaluation.Entries
import QualityScript.Proofs.Evaluation.Names

/-!
# Evaluations that leave qualities unread

Whether a script reads a quality cannot be seen from its text: it may do so in the value of an alias,
in a text that is held, in a description, or in a filter. It is seen by evaluating. The evaluator below
goes the usual way but does not finish where it comes to read one of some qualities. What it finishes
is finished in the same way on all states that differ in these qualities only.
-/

namespace QualityScript

open Quality

def Env.states (env : Env) : World := ⟨env.player, env.world⟩

def Env.withStates (env : Env) (states : World) : Env :=
  { env with player := states.player, world := states.world }

namespace Env

@[simp] theorem withStates_registry (env : Env) (states : World) :
    (env.withStates states).registry = env.registry := rfl

@[simp] theorem withStates_config (env : Env) (states : World) :
    (env.withStates states).config = env.config := rfl

@[simp] theorem withStates_attempts (env : Env) (states : World) :
    (env.withStates states).attempts = env.attempts := rfl

end Env

/-- These qualities apart, the states are the same. -/
def World.SameOff (keys : List (Scope × String)) (states states' : World) : Prop :=
  ∀ key : Scope × String, key.1 ≠ .self → key ∉ keys → states.state? key = states'.state? key

/-! ## What is read -/

/-- The quality whose state a reference reads; none if `$.` is bound with a state or not at all. -/
def Reference.read? (frame : Frame) (r : Reference) : Option (Scope × String) :=
  match r.scope, frame.self with
  | .self, some ⟨id, none⟩ => some (.player, id)
  | .self, _ => none
  | scope, _ => some (scope, r.id)

/-- The qualities whose states an expression reads, apart from what its parts read. -/
def Expr.reads (env : Env) (frame : Frame) : Expr → List (Scope × String)
  | .ref r => (r.read? frame).toList
  | .effect list | .call (.schedule _ list _ _) =>
    list.flatMap fun e => (Eval.aimsOf env frame e.target).map Eval.Aim.key
  | .call (.roll category _) => (env.registry.inCategory category).map fun d => (.player, d.id)
  | _ => []

/-- The evaluator that nests at most `fuel` steps and does not finish an expression that reads one of
the qualities. Blocks, leaves and templates read states in expressions only. -/
def evaluatorAvoiding (env : Env) (keys : List (Scope × String)) : Nat → Evaluator
  | 0 => .unfinished
  | fuel + 1 =>
    { (evaluatorAvoiding env keys fuel).step env with
      expr := fun e frame =>
        if ∃ key ∈ e.reads env frame, key ∈ keys then throw .unfinished
        else Eval.expr env (evaluatorAvoiding env keys fuel) e frame }

/-! ## Other states -/

section

variable {env : Env} {keys : List (Scope × String)} {states : World}

theorem Reference.resolve_withStates (h : env.states.SameOff keys states) {frame : Frame}
    {r : Reference} (hread : ∀ key ∈ r.read? frame, key ∉ keys) :
    r.resolve (env.withStates states) frame = r.resolve env frame := by
  obtain ⟨scope, id, property⟩ := r
  cases scope with
  | player =>
    have hstate := h (.player, id) Scope.noConfusion (hread _ rfl)
    exact congrArg (resolveQuality env.registry id · property) hstate.symm
  | world =>
    have hstate := h (.world, id) Scope.noConfusion (hread _ rfl)
    exact congrArg (resolveQuality env.registry id · property) hstate.symm
  | self =>
    cases hself : frame.self with
    | none => simp only [resolve, hself]
    | some binding =>
      obtain ⟨id, _ | state⟩ := binding
      · have hstate := h (.player, id) Scope.noConfusion (hread _ (by simp [read?, hself]))
        simp only [resolve, hself]
        exact congrArg (resolveQuality env.registry id · property) hstate.symm
      · simp only [resolve, hself]
        rfl

/-- What follows an evaluation matters for the values that the evaluation ends with. -/
theorem EvalM.bind_congr_of_runOn {α β : Type} {m : EvalM α} {f g : α → EvalM β}
    (h : ∀ a mem mem', m.runOn mem = (.ok a, mem') → f a = g a) : (m >>= f) = (m >>= g) := by
  refine EvalM.ext fun mem => ?_
  rw [EvalM.runOn_bind, EvalM.runOn_bind]
  rcases hrun : m.runOn mem with ⟨e | a, mem'⟩
  · rfl
  · simp only [h a mem mem' hrun]

theorem Expr.reads_withStates (e : Expr) (frame : Frame) :
    e.reads (env.withStates states) frame = e.reads env frame := by
  cases e with
  | call c => cases c <;> rfl
  | _ => rfl

namespace Eval

variable {self : Evaluator} {frame : Frame}

theorem eq_aimsOf_of_runOn {target : EffectTarget} {list : List Aim} {mem mem' : Memory}
    (hrun : (aims env frame target).runOn mem = (.ok list, mem')) :
    list = aimsOf env frame target := by
  obtain ⟨mem'', haims⟩ : ∃ mem'', (aims env frame target).runOn mem =
      (.ok (aimsOf env frame target), mem'') := runOn_aims target mem
  cases hrun.symm.trans haims
  rfl

theorem weight_withStates (h : env.states.SameOff keys states) {id : String}
    (hid : (Scope.player, id) ∉ keys) : weight (env.withStates states) id = weight env id := by
  have hstate : env.player.get? id = states.player.get? id := h (.player, id) Scope.noConfusion hid
  simp only [weight, States.level, Env.withStates, hstate]

theorem roll_withStates (h : env.states.SameOff keys states) {category : String}
    (filter : Option Expr) (hreads : ∀ d ∈ env.registry.inCategory category,
      (Scope.player, d.id) ∉ keys) :
    roll (env.withStates states) self category filter frame =
      roll env self category filter frame := by
  refine EvalM.bind_congr_of_runOn fun ids mem mem' hrun => ?_
  have hweights : ids.map (weight (env.withStates states)) = ids.map (weight env) := by
    refine List.map_congr_left fun id hid => weight_withStates h ?_
    obtain ⟨d, hd, rfl⟩ := List.mem_map.mp ((sublist_of_runOn_candidates hrun).mem hid)
    exact hreads d hd
  rw [hweights]
  rfl

theorem Progress.add_withStates (h : env.states.SameOff keys states) (p : Progress)
    (e : EffectExpr) (amount : Value) (description : Option String) {aim : Aim}
    (hscope : aim.scope ≠ .self) (haim : aim.key ∉ keys) :
    p.add (env.withStates states) e amount description aim = p.add env e amount description aim := by
  have hcurrent : currentHolding (env.withStates states) aim.scope aim.id amount =
      currentHolding env aim.scope aim.id amount := by
    have hstate := h aim.key hscope haim
    rw [currentHolding_eq, currentHolding_eq]
    exact congrArg (fun state? => ((Option.map State.holding state?).getD
      (.empty (inferredKind env aim.id amount)))) hstate.symm
  simp only [add, before, hcurrent]

theorem effects_withStates (h : env.states.SameOff keys states) {list : List EffectExpr}
    (hreads : ∀ key ∈ list.flatMap fun e => (aimsOf env frame e.target).map Aim.key, key ∉ keys) :
    effects (env.withStates states) self list frame = effects env self list frame := by
  have hfrom (p : Progress) : effectsFrom (env.withStates states) self frame p list =
      effectsFrom env self frame p list := by
    induction list generalizing p with
    | nil => rfl
    | cons e rest ih =>
      rw [List.flatMap_cons, List.forall_mem_append] at hreads
      have hfold (amount : Value) (description : Option String) (p : Progress) :
          (aimsOf env frame e.target).foldl
              (fun p aim => p.add (env.withStates states) e amount description aim) p =
            (aimsOf env frame e.target).foldl
              (fun p aim => p.add env e amount description aim) p :=
        List.foldl_ext _ _ _ fun p aim haim => Progress.add_withStates h p e amount description
          (scope_ne_of_mem_aimsOf haim) (hreads.1 _ (List.mem_map_of_mem haim))
      simp only [effectsFrom, ih hreads.2]
      refine bind_congr fun amount => bind_congr fun description => ?_
      refine EvalM.bind_congr_of_runOn fun aims mem mem' haims => ?_
      rw [eq_aimsOf_of_runOn haims]
      exact congrArg (effectsFrom env self frame · rest) (hfold amount description p)
  simp only [effects, hfrom]

theorem content_withStates :
    content (env.withStates states) self = content env self := by
  funext mode input frame
  simp only [content, Env.withStates_attempts]

theorem leaf_withStates : leaf (env.withStates states) self = leaf env self := by
  funext input frame
  simp only [leaf, expandNested, Env.withStates_config]

theorem expand_withStates : expand (env.withStates states) self = expand env self := by
  have hsegments (frame : Frame) (template : Template) :
      segments (env.withStates states) self frame template = segments env self frame template := by
    induction template with
    | nil => rfl
    | cons segment rest ih =>
      cases segment with
      | literal text => simp only [segments, ih]
      | block content => simp only [segments, blockText, ih, Env.withStates_config]
  funext quotesKept input frame
  simp only [expand, hsegments]

theorem challengePercent_withStates (c : Challenge) :
    challengePercent (env.withStates states) self c frame = challengePercent env self c frame := by
  simp only [challengePercent, defaultMargin, Env.withStates_config]

theorem call_withStates (h : env.states.SameOff keys states) {c : Call}
    (hreads : ∀ key ∈ Expr.reads env frame (.call c), key ∉ keys) :
    call (env.withStates states) self c frame = call env self c frame := by
  have hnames : displayName (env.withStates states) self frame = displayName env self frame := by
    funext id
    simp only [displayName, Env.withStates_registry, Env.withStates_config]
  have hcandidates (category : String) (filter : Option Expr) :
      candidates (env.withStates states) self category filter frame =
        candidates env self category filter frame := by
    simp only [candidates, Env.withStates_registry]
  cases c with
  | random chance invert => simp only [call, random, Env.withStates_attempts]
  | pick category count filter => simp only [call, pick, hcandidates, Env.withStates_attempts]
  | roll category filter =>
    exact roll_withStates h filter fun d hd => hreads _ (List.mem_map_of_mem hd)
  | list category separator filter => simp only [call, hcandidates, hnames]
  | all category => simp only [call, Env.withStates_registry]
  | schedule kind list amount unit => simp only [call, effects_withStates h hreads]
  | chance c => simp only [call, challengePercent_withStates]

theorem expr_withStates (h : env.states.SameOff keys states) {e : Expr}
    (hreads : ∀ key ∈ e.reads env frame, key ∉ keys) :
    expr (env.withStates states) self e frame = expr env self e frame := by
  cases e with
  | literal value => simp only [expr, literal, Env.withStates_config]
  | ref r =>
    have hresolve := Reference.resolve_withStates h fun key hkey =>
      hreads key (Option.mem_toList.mpr hkey)
    simp only [expr, reference, hresolve, Env.withStates_config]
  | effect list => simp only [expr, effects_withStates h hreads]
  | call c => exact call_withStates h hreads
  | challenge c =>
    simp only [expr, challenge, challengePercent_withStates, Env.withStates_attempts]
  | range lo hi => simp only [expr, range, Env.withStates_attempts]
  | _ => simp only [expr]

end Eval

theorem evaluatorAvoiding_withStates (h : env.states.SameOff keys states) (fuel : Nat) :
    evaluatorAvoiding (env.withStates states) keys fuel = evaluatorAvoiding env keys fuel := by
  induction fuel with
  | zero => rfl
  | succ fuel ih =>
    have hexpr (self : Evaluator) (e : Expr) (frame : Frame) :
        (if ∃ key ∈ e.reads env frame, key ∈ keys then throw .unfinished
          else Eval.expr (env.withStates states) self e frame) =
        if ∃ key ∈ e.reads env frame, key ∈ keys then throw .unfinished
          else Eval.expr env self e frame := by
      split
      · rfl
      · next hnone => exact Eval.expr_withStates h fun key hkey hmem => hnone ⟨key, hkey, hmem⟩
    simp only [evaluatorAvoiding, Evaluator.step, ih, Expr.reads_withStates, hexpr,
      Eval.content_withStates, Eval.leaf_withStates, Eval.expand_withStates]

end

/-! ## Finished without reading -/

/-- The task itself reads one of the qualities. -/
def Task.Reads (env : Env) (frame : Frame) (keys : List (Scope × String)) : Task → Prop
  | .expr e => ∃ key ∈ e.reads env frame, key ∈ keys
  | _ => False

theorem runOn_avoiding_of_reads {env : Env} {keys : List (Scope × String)} {fuel : Nat} {t : Task}
    {frame : Frame} (h : t.Reads env frame keys) (mem : Memory) :
    (((evaluatorAvoiding env keys (fuel + 1)).run t frame).runOn mem).1 = .error .unfinished := by
  cases t with
  | expr e =>
    have hcut : (evaluatorAvoiding env keys (fuel + 1)).expr e frame = throw .unfinished := if_pos h
    simp only [Evaluator.run, hcut]
    rfl
  | _ => exact h.elim

theorem run_avoiding {env : Env} {keys : List (Scope × String)} {fuel : Nat} {t : Task}
    {frame : Frame} (h : ¬t.Reads env frame keys) :
    (evaluatorAvoiding env keys (fuel + 1)).run t frame =
      ((evaluatorAvoiding env keys fuel).step env).run t frame := by
  cases t with
  | expr e => exact if_neg h
  | _ => simp only [Evaluator.run, evaluatorAvoiding]

/-- By induction on the fuel: as long as the qualities are avoided, the two evaluators make the same
steps. -/
theorem answers_avoiding (env : Env) (keys : List (Scope × String)) (fuel : Nat) (t : Task)
    (start : Memory) :
    (continuesLogic env.bounds 0).Answers (.nothing env)
      (fun i => if i then evaluator env fuel else evaluatorAvoiding env keys fuel) t start := by
  induction fuel generalizing t start with
  | zero =>
    intro mem frame _ hfinished
    cases t <;> exact absurd rfl hfinished
  | succ fuel ih =>
    intro mem frame h
    by_cases hread : t.Reads env frame keys
    · exact fun hfinished => absurd (runOn_avoiding_of_reads hread mem) hfinished
    · have hstep := Eval.answers_step (t := t) (fun t' _ => ih t' start)
        (fun t' mem _ => ih t' mem) h
      have hsame (i : Bool) :
          (if i then evaluator env (fuel + 1) else evaluatorAvoiding env keys (fuel + 1)).run t frame =
            ((if i then evaluator env fuel else evaluatorAvoiding env keys fuel).step
              (env.within ((continuesLogic env.bounds 0).bounds i))).run t frame := by
        have hbounds : env.within ((continuesLogic env.bounds 0).bounds i) = env := by cases i <;> rfl
        rw [hbounds]
        cases i with
        | true => exact congrArg (fun self => self.run t frame) (evaluator_succ env fuel)
        | false => exact run_avoiding hread
      simp only [hsame]
      exact hstep

theorem Entry.runOn_of_avoiding {α : Type} {m : Env → Evaluator → Frame → EvalM α} (hm : Entry m)
    {env : Env} {keys : List (Scope × String)} {fuel : Nat} {frame : Frame} {mem : Memory}
    (hfinished : ((m env (evaluatorAvoiding env keys fuel) frame).runOn mem).1 ≠
      .error .unfinished) :
    (m env (evaluator env fuel) frame).runOn mem =
      (m env (evaluatorAvoiding env keys fuel) frame).runOn mem := by
  have hcontinues : (continuesLogic env.bounds 0).Gives (.nothing env)
      (fun i => m (env.within ((continuesLogic env.bounds 0).bounds i))
        (if i then evaluator env fuel else evaluatorAvoiding env keys fuel) frame)
      mem fun _ => True :=
    hm.gives (fun t => answers_avoiding env keys fuel t mem) (Kept.at_nothing _ _)
  exact (hcontinues hfinished).1

/-- What reads the states through the evaluator only, and is finished without reading the qualities, goes
the same way whatever the states of them are. -/
theorem Entry.runOn_withStates {α : Type} {m : Env → Evaluator → Frame → EvalM α} (hm : Entry m)
    {env : Env} {states : World} (hsame : m (env.withStates states) = m env)
    {keys : List (Scope × String)} (h : env.states.SameOff keys states) {fuel : Nat} {frame : Frame}
    {mem : Memory}
    (hfinished : ((m env (evaluatorAvoiding env keys fuel) frame).runOn mem).1 ≠
      .error .unfinished) :
    (m env (evaluator (env.withStates states) fuel) frame).runOn mem =
      (m env (evaluator env fuel) frame).runOn mem := by
  have havoid : m (env.withStates states) (evaluatorAvoiding (env.withStates states) keys fuel) frame =
      m env (evaluatorAvoiding env keys fuel) frame := by
    rw [hsame, evaluatorAvoiding_withStates h]
  calc (m env (evaluator (env.withStates states) fuel) frame).runOn mem
      = (m (env.withStates states) (evaluator (env.withStates states) fuel) frame).runOn mem := by
        rw [hsame]
    _ = (m (env.withStates states) (evaluatorAvoiding (env.withStates states) keys fuel)
          frame).runOn mem := hm.runOn_of_avoiding (by rw [havoid]; exact hfinished)
    _ = (m env (evaluatorAvoiding env keys fuel) frame).runOn mem := by rw [havoid]
    _ = (m env (evaluator env fuel) frame).runOn mem := (hm.runOn_of_avoiding hfinished).symm

end QualityScript
